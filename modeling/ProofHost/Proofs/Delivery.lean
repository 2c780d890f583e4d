import Mathlib.Data.List.TakeWhile
import ProofHost.Event

/-!
What subscribers of a bus get. Each act on a bus does to a subscriber something that depends on that
subscriber alone. So whatever the others do, what a subscriber has taken and what still waits for it
are the events that were published since it came and before the bus was closed, each once and in
order.
-/

set_option autoImplicit false

namespace ProofHost

namespace EventBus

variable {bus : EventBus} {i : Nat} {queue : List Event} {listed : Bool}

/-- Something that is done with a bus or at the subscriber at a place. -/
inductive Act where
  | subscribe
  | publish (e : Event)
  | drain (place : Nat)
  | receive (place : Nat)
  | drop (place : Nat)
  | close
  deriving DecidableEq

def act (bus : EventBus) : Act → EventBus
  | .subscribe => bus.subscribe.2
  | .publish e => bus.publish e
  | .drain place => (bus.drain place).2
  | .receive place => (bus.receive place).2
  | .drop place => bus.drop place
  | .close => bus.close

def after (bus : EventBus) (acts : List Act) : EventBus := acts.foldl act bus

def Receipt.events : Receipt → List Event
  | event e => [e]
  | _ => []

def handed (bus : EventBus) (i : Nat) : Act → List Event
  | .drain place => if place = i then (bus.drain i).1 else []
  | .receive place => if place = i then (bus.receive i).1.events else []
  | _ => []

/-- What several acts hand to the subscriber at a place. -/
def taken (i : Nat) : EventBus → List Act → List Event
  | _, [] => []
  | bus, a :: acts => bus.handed i a ++ taken i (bus.act a) acts

def Act.event? : Act → Option Event
  | publish e => some e
  | _ => none

def published (acts : List Act) : List Event := acts.filterMap Act.event?

/-- The subscriber at a place listens; so much waits for it, and it is on the list or not. -/
def Listens (bus : EventBus) (i : Nat) (queue : List Event) (listed : Bool) : Prop :=
  bus.subscribers[i]? = some ⟨queue, true, listed⟩

namespace Listens

private theorem there (h : bus.Listens i queue listed) :
    bus.subscribers[i]? = some ⟨queue, true, listed⟩ := h

theorem listener (h : bus.Listens i queue listed) :
    bus.listener? i = some ⟨queue, true, listed⟩ := by
  rw [listener?, h.there]
  rfl

theorem setQueue (h : bus.Listens i queue listed) (left : List Event) :
    (bus.setQueue i left).Listens i left listed := by
  simp [Listens, EventBus.setQueue, h.there]

private theorem setQueue_of_ne (h : bus.Listens i queue listed) {place : Nat} (other : place ≠ i)
    (left : List Event) : (bus.setQueue place left).Listens i queue listed := by
  simp [Listens, EventBus.setQueue, other, h.there]

theorem drain (h : bus.Listens i queue listed) : bus.drain i = (queue, bus.setQueue i []) := by
  rw [EventBus.drain, h.listener]

private theorem receive (h : bus.Listens i queue listed) :
    ∃ left, (bus.receive i).2.Listens i left listed ∧
      (bus.receive i).1.events ++ left = queue := by
  rw [EventBus.receive, h.listener]
  cases queue with
  | nil =>
    refine ⟨[], h, ?_⟩
    cases listed <;> rfl
  | cons e rest => exact ⟨rest, h.setQueue rest, rfl⟩

private theorem drain_of_ne (h : bus.Listens i queue listed) {place : Nat} (other : place ≠ i) :
    (bus.drain place).2.Listens i queue listed := by
  unfold EventBus.drain
  cases bus.listener? place with
  | none => exact h
  | some s => exact h.setQueue_of_ne other []

private theorem receive_of_ne (h : bus.Listens i queue listed) {place : Nat} (other : place ≠ i) :
    (bus.receive place).2.Listens i queue listed := by
  unfold EventBus.receive
  cases bus.listener? place with
  | none => exact h
  | some s =>
    obtain ⟨waiting, listening, listed'⟩ := s
    cases waiting with
    | nil => exact h
    | cons e rest => exact h.setQueue_of_ne other rest

private theorem drop_of_ne (h : bus.Listens i queue listed) {place : Nat} (other : place ≠ i) :
    (bus.drop place).Listens i queue listed := by
  simp [Listens, EventBus.drop, other, h.there]

private theorem subscribe (h : bus.Listens i queue listed) :
    bus.subscribe.2.Listens i queue listed := by
  have there : i < bus.subscribers.length := (List.getElem?_eq_some_iff.mp h.there).1
  exact (List.getElem?_append_left there).trans h.there

private theorem publish (h : bus.Listens i queue listed) (e : Event) :
    (bus.publish e).Listens i (queue ++ if listed then [e] else []) listed := by
  cases listed <;> simp [Listens, EventBus.publish, h.there]

theorem publishAll (h : bus.Listens i queue true) (events : List Event) :
    (bus.publishAll events).Listens i (queue ++ events) true := by
  induction events generalizing bus queue with
  | nil => simpa [EventBus.publishAll] using h
  | cons e events ih =>
    have later := ih (h.publish e)
    rwa [if_pos rfl, List.append_assoc] at later

theorem close (h : bus.Listens i queue listed) : bus.close.Listens i queue false := by
  simp [Listens, EventBus.close, h.there]

private theorem act (h : bus.Listens i queue listed) {a : Act} (stays : a ≠ .drop i) :
    ∃ queue', (bus.act a).Listens i queue' (listed && a ≠ .close) ∧
      bus.handed i a ++ queue' = queue ++ if listed then published [a] else [] := by
  have nothing : queue = queue ++ if listed then [] else [] := by simp
  have listedStill : listed = (listed && true) := (Bool.and_true listed).symm
  cases a with
  | subscribe => exact ⟨queue, listedStill ▸ h.subscribe, nothing⟩
  | publish e => exact ⟨_, listedStill ▸ h.publish e, rfl⟩
  | drain place =>
    by_cases own : place = i
    · subst own
      have drained : (bus.act (.drain place)).Listens place [] listed := by
        simpa only [EventBus.act, h.drain] using h.setQueue []
      have all : bus.handed place (.drain place) = queue := by simp [handed, h.drain]
      exact ⟨[], listedStill ▸ drained, by rw [all, List.append_nil]; exact nothing⟩
    · have none : bus.handed i (.drain place) = [] := if_neg own
      exact ⟨queue, listedStill ▸ h.drain_of_ne own, by rw [none]; exact nothing⟩
  | receive place =>
    by_cases own : place = i
    · subst own
      obtain ⟨left, listens, whole⟩ := h.receive
      have one : bus.handed place (.receive place) = (bus.receive place).1.events := if_pos rfl
      exact ⟨left, listedStill ▸ listens, by rw [one, whole]; exact nothing⟩
    · have none : bus.handed i (.receive place) = [] := if_neg own
      exact ⟨queue, listedStill ▸ h.receive_of_ne own, by rw [none]; exact nothing⟩
  | drop place =>
    have other : place ≠ i := fun same => stays (same ▸ rfl)
    exact ⟨queue, listedStill ▸ h.drop_of_ne other, nothing⟩
  | close => exact ⟨queue, (Bool.and_false listed).symm ▸ h.close, nothing⟩

private theorem acts (h : bus.Listens i queue listed) {acts : List Act} (stays : .drop i ∉ acts) :
    ∃ queue', (bus.after acts).Listens i queue' (listed && .close ∉ acts) ∧
      taken i bus acts ++ queue' =
        queue ++ if listed then published (acts.takeWhile (· ≠ .close)) else [] := by
  induction acts generalizing bus queue listed with
  | nil => exact ⟨queue, by simpa [after] using h, by simp [taken, published]⟩
  | cons a acts ih =>
    obtain ⟨waiting, listens, first⟩ := h.act (List.ne_of_not_mem_cons stays).symm
    obtain ⟨queue', listens', later⟩ := ih listens (List.not_mem_of_not_mem_cons stays)
    refine ⟨queue', ?_, ?_⟩
    -- A subscriber that is off the list stays off it, and nothing published counts for it any more.
    · have closed : (listed && .close ∉ a :: acts) =
          ((listed && a ≠ .close) && .close ∉ acts) := by
        by_cases now : a = .close
        · simp [now]
        · simp [now, Ne.symm now]
      rw [closed]
      exact listens'
    · rw [taken, List.append_assoc, later, ← List.append_assoc, first, List.append_assoc]
      by_cases now : a = .close
      · simp [now, published, Act.event?]
      · cases listed <;> simp [now, published, List.filterMap_cons]
        cases a.event? <;> rfl

end Listens

theorem publishAll_append (bus : EventBus) (front back : List Event) :
    bus.publishAll (front ++ back) = (bus.publishAll front).publishAll back :=
  List.foldl_append

theorem publishAll_unlisted {listening : Bool}
    (h : bus.subscribers[i]? = some ⟨queue, listening, false⟩) (events : List Event) :
    (bus.publishAll events).subscribers[i]? = some ⟨queue, listening, false⟩ := by
  induction events generalizing bus with
  | nil => exact h
  | cons e events ih =>
    refine ih ?_
    simp [EventBus.publish, h]

def Stopped (bus : EventBus) (i : Nat) : Prop :=
  ∃ s, bus.subscribers[i]? = some s ∧ s.listening = false

namespace Stopped

private theorem setQueue (h : bus.Stopped i) (place : Nat) (left : List Event) :
    (bus.setQueue place left).Stopped i := by
  obtain ⟨s, there, stopped⟩ := h
  by_cases own : place = i
  · exact ⟨{ s with queue := left }, by simp [EventBus.setQueue, own, there], stopped⟩
  · exact ⟨s, by simp [EventBus.setQueue, own, there], stopped⟩

private theorem act (h : bus.Stopped i) (a : Act) : (bus.act a).Stopped i := by
  cases a with
  | drain place =>
    rw [EventBus.act, drain]
    cases bus.listener? place with
    | none => exact h
    | some s => exact h.setQueue place []
  | receive place =>
    rw [EventBus.act, receive]
    cases bus.listener? place with
    | none => exact h
    | some s =>
      obtain ⟨waiting, listening, listed⟩ := s
      cases waiting with
      | nil => exact h
      | cons e rest => exact h.setQueue place rest
  | subscribe =>
    obtain ⟨s, there, stopped⟩ := h
    have inside := (List.getElem?_eq_some_iff.mp there).1
    exact ⟨s, (List.getElem?_append_left inside).trans there, stopped⟩
  | publish e =>
    obtain ⟨⟨waiting, listening, listed⟩, there, stopped⟩ := h
    cases stopped
    cases listed <;> exact ⟨_, by simp [EventBus.act, publish, there]; rfl, rfl⟩
  | drop place =>
    obtain ⟨s, there, stopped⟩ := h
    by_cases own : place = i
    · exact ⟨_, by simp [EventBus.act, drop, own, there]; rfl, rfl⟩
    · exact ⟨s, by simp [EventBus.act, drop, own, there], stopped⟩
  | close =>
    obtain ⟨s, there, stopped⟩ := h
    exact ⟨{ s with listed := false }, by simp [EventBus.act, close, there], stopped⟩

end Stopped

end EventBus

end ProofHost
