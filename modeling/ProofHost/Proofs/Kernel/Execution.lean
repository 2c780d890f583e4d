import ProofHost.Proofs.Document.Continued
import ProofHost.Proofs.Kernel.Following

/-!
What a kernel inside the host tells of executed states. A state is executed exactly if it is live
and is the root or was told to be executed, at whatever point of a run this is asked. So no state is
told to be executed twice, none before the one it is built on, and goals are shown at the executed
states only.
-/

set_option autoImplicit false

namespace ProofHost

variable {d : Document} {k k' : SimulatedKernel} {site site' : Site} {c : Command}
  {answers : List Answer} {id p x : StateId} {done ids later rest : List StateId} {n : Nat}

def Answer.executed? : Answer → Option StateId
  | feedback f => if f.contents = Json.ofTexts ["Processed"] then some f.state else none
  | _ => none

def Answer.issues : Answer → Bool
  | ready .. => true
  | added .. => true
  | _ => false

/-- The states of which answers tell that they are executed, in the order of the answers. -/
def Answer.executedIn (answers : List Answer) : List StateId := answers.filterMap executed?

def Answer.issuedIn (answers : List Answer) : Nat := answers.countP issues

open Answer (executedIn issuedIn)

@[simp] theorem executedIn_append (answers answers' : List Answer) :
    executedIn (answers ++ answers') = executedIn answers ++ executedIn answers' :=
  List.filterMap_append

@[simp] theorem issuedIn_append (answers answers' : List Answer) :
    issuedIn (answers ++ answers') = issuedIn answers + issuedIn answers' :=
  List.countP_append

@[simp] theorem executedIn_processed_cons (id : StateId) (answers : List Answer) :
    executedIn (SimulatedKernel.processed id :: answers) = id :: executedIn answers := rfl

private theorem told_of_shows (shows : ∀ a ∈ answers, a.Shows) :
    executedIn answers = [] ∧ issuedIn answers = 0 := by
  refine ⟨List.filterMap_eq_nil_iff.mpr fun a mem => ?_, List.countP_eq_zero.mpr fun a mem => ?_⟩
  · cases shows a mem <;> rfl
  · cases shows a mem <;> simp [Answer.issues, SimulatedKernel.feedback]

theorem told_of_added (id : StateId) (span : Option Span) (verbose : Bool) :
    let note := SimulatedKernel.feedback id SimulatedKernel.defaultRoute .debug
      (Json.ofTexts ["Added"])
    let answers := Answer.added id span :: if verbose then [note] else []
    executedIn answers = [] ∧ issuedIn answers = 1 := by
  cases verbose <;> exact ⟨rfl, rfl⟩

/-- Each state is built on the root or on a state before it, and is not among those before it. -/
def Document.Follows (d : Document) : List StateId → List StateId → Prop
  | _, [] => True
  | done, x :: later =>
    (∃ p, d.parentOf x = some p ∧ (d.root = some p ∨ p ∈ done)) ∧ x ∉ done ∧
      Follows d (done ++ [x]) later

namespace Document.Follows

private theorem nodup (h : d.Follows done ids) (before : done.Nodup) : (done ++ ids).Nodup := by
  induction ids generalizing done with
  | nil => rwa [List.append_nil]
  | cons x later ih =>
    obtain ⟨-, new, follows⟩ := h
    have longer : (done ++ [x]).Nodup := List.nodup_append.mpr
      ⟨before, List.pairwise_singleton _ x, fun a mem b hb same =>
        new (List.mem_singleton.mp hb ▸ same ▸ mem)⟩
    simpa using ih follows longer

private theorem parent_before {before : List StateId} (h : d.Follows done ids)
    (split : ids = before ++ x :: later) :
    ∃ p, d.parentOf x = some p ∧ (d.root = some p ∨ p ∈ done ++ before) := by
  induction before generalizing done ids with
  | nil =>
    subst split
    simpa using h.1
  | cons y before ih =>
    subst split
    simpa using ih h.2.2 rfl

end Document.Follows

namespace SimulatedKernel

open Kernel (Act after answered answered_post answered_append)

/--
The kernel after some states were told to be executed: they are recorded, and the executed ones are
the live ones among them and the root.
-/
structure Tracked (n : Nat) (done : List StateId) (k : SimulatedKernel) : Prop where
  booted : k.booted = true
  numbered : k.document.Numbered n
  recorded : ∀ x ∈ done, k.document.wasIssued x = true
  executed : ∀ x, k.isExecuted x = true ↔
    k.document.isLive x = true ∧ (k.document.root = some x ∨ x ∈ done)

theorem isExecuted_prune :
    k.prune.isExecuted x = true ↔ k.isExecuted x = true ∧ k.document.isLive x = true := by
  simp [isExecuted, SimulatedKernel.prune]

namespace Tracked

theorem serving (h : Tracked n done k) : k.Serving := ⟨h.booted, h.numbered.anchored⟩

private theorem continued {m : Nat} {d' : Document} (h : Tracked n done k)
    (numbered : d'.Numbered m)
    (continued : k.document.Continued d') : Tracked m done { k with document := d' }.prune where
  booted := h.booted
  numbered := numbered
  recorded x mem := continued.recorded x (h.recorded x mem)
  executed x := by
    have wasExecuted : ({ k with document := d' } : SimulatedKernel).isExecuted x = true ↔
        k.document.isLive x = true ∧ (k.document.root = some x ∨ x ∈ done) := h.executed x
    rw [isExecuted_prune, wasExecuted, and_assoc, document_prune, continued.root]
    constructor
    · rintro ⟨-, told, live⟩
      exact ⟨live, told⟩
    · rintro ⟨live, told⟩
      -- A root and a state that was told of are recorded, so they are not among the new ones.
      have recorded : k.document.wasIssued x = true := by
        rcases told with isRoot | mem
        · rcases h.numbered.blank_or_rooted with blank | ⟨root, rooted⟩
          · simp [blank.noRoot] at isRoot
          · obtain rfl := Option.some.inj (isRoot.symm.trans rooted.isRoot)
            exact Document.wasIssued_of_isLive rooted.liveRoot
        · exact h.recorded x mem
      exact ⟨continued.live x live recorded, told, live⟩

private theorem execute (h : Tracked n done k) (live : k.document.isLive id = true) :
    Tracked n (done ++ [id]) { k with executed := id :: k.executed } where
  booted := h.booted
  numbered := h.numbered
  recorded x mem := by
    rcases List.mem_append.mp mem with mem | mem
    · exact h.recorded x mem
    · rw [List.mem_singleton.mp mem]
      exact Document.wasIssued_of_isLive live
  executed x := by
    have wasExecuted := h.executed x
    simp only [isExecuted, List.contains_cons, Bool.or_eq_true, beq_iff_eq, List.mem_append,
      List.mem_singleton] at wasExecuted ⊢
    rw [wasExecuted]
    constructor
    · rintro (rfl | ⟨stillLive, told⟩)
      · exact ⟨live, .inr (.inr rfl)⟩
      · exact ⟨stillLive, told.imp_right .inl⟩
    · rintro ⟨stillLive, told | told | same⟩
      · exact .inr ⟨stillLive, .inl told⟩
      · exact .inr ⟨stillLive, .inr told⟩
      · exact .inl same

private theorem root (h : Tracked n done k) : Tracked (n + 1) done
    { k with document := k.document.init.2, executed := [k.document.issue.1] } where
  booted := h.booted
  numbered := h.numbered.init
  recorded x mem := Document.wasIssued_reset (h.recorded x mem)
  executed x := by
    have live : k.document.init.2.isLive x = true ↔ x = k.document.issue.1 :=
      Document.isLive_reset
    have root : k.document.init.2.root = some k.document.issue.1 := rfl
    rw [live, root]
    simp only [isExecuted, List.contains_cons, List.contains_nil, Bool.or_false, beq_iff_eq]
    constructor
    · rintro rfl
      exact ⟨rfl, .inl rfl⟩
    · exact And.left

end Tracked

private theorem Execution.tracked {good : StateId} (run : Execution k good rest answers k')
    (h : Tracked n done k) (executed : k.isExecuted good = true)
    (linked : (good :: rest).IsChain fun p x => k.document.parentOf x = some p)
    (live : ∀ x ∈ rest, k.document.isLive x = true) :
    k.document.Follows done (executedIn answers) ∧
      Tracked n (done ++ executedIn answers) k' ∧ issuedIn answers = 0 := by
  induction run generalizing done with
  | done => exact ⟨trivial, by simpa [executedIn] using h, rfl⟩
  | skip already _ ih =>
    exact ih h already (List.isChain_cons_cons.mp linked).2 (List.forall_mem_cons.mp live).2
  | @stop k good id rest new location reason =>
    have back := h.numbered.rollback_child (List.forall_mem_cons.mp live).1
      (List.isChain_cons_cons.mp linked).1
    have stopped := h.continued back (.rollback k.document good id)
    exact ⟨trivial, by simpa [executedIn, Answer.executed?, List.filterMap_cons] using stopped, rfl⟩
  | @go k k' good id rest answers new _ ih =>
    obtain ⟨parent, linked⟩ := List.isChain_cons_cons.mp linked
    obtain ⟨liveId, live⟩ := List.forall_mem_cons.mp live
    obtain ⟨-, told⟩ := (h.executed good).mp executed
    -- A live state that was told of is executed, so it would have been passed over.
    have first : id ∉ done := by
      intro mem
      have already := (h.executed id).mpr ⟨liveId, .inr mem⟩
      simp [new] at already
    have nowExecuted : ({ k with executed := id :: k.executed } : SimulatedKernel).isExecuted id =
        true := by
      simp [isExecuted]
    obtain ⟨follows, tracked, none⟩ := ih (h.execute liveId) nowExecuted linked live
    exact ⟨⟨⟨good, parent, told⟩, first, follows⟩, by simpa using tracked, none⟩

private theorem Outcome.tracked (outcome : Outcome k site c answers k' site') (h : Tracked n done k)
    (few : n + issuedIn answers ≤ StateId.greatest.toNat) :
    k.document.Follows done (executedIn answers) ∧
      Tracked (n + issuedIn answers) (done ++ executedIn answers) k' := by
  have same {k' : SimulatedKernel} {answers : List Answer} (h : Tracked n done k')
      (told : executedIn answers = [] ∧ issuedIn answers = 0) :
      k.document.Follows done (executedIn answers) ∧
        Tracked (n + issuedIn answers) (done ++ executedIn answers) k' := by
    rw [told.1, told.2, List.append_nil]
    exact ⟨trivial, h⟩
  cases outcome with
  | refused => exact same h ⟨rfl, rfl⟩
  | shown _ shows _ => exact same h (told_of_shows shows)
  | rooted =>
    refine ⟨trivial, ?_⟩
    rw [show executedIn [.ready k.document.issue.1] = [] from rfl, List.append_nil]
    exact h.root
  | @added editAt parent p text verbose resolved =>
    obtain ⟨told, issued⟩ := told_of_added k.document.issue.1 (some (Span.ofText text)) verbose
    rw [issued] at few
    have left : n < StateId.greatest.toNat := few
    have fresh := Document.wasIssued_of_above (h.numbered.fresh left)
    have numbered := h.numbered.add left editAt parent text
    rw [Document.add_eq resolved] at numbered
    rw [told, issued, List.append_nil]
    exact ⟨trivial, h.continued numbered (.add fresh editAt p text)⟩
  | @removed id tip live notRoot done' =>
    have numbered := h.numbered.cancel id
    rw [done'] at numbered
    exact same (h.continued numbered (.prune k.document id)) ⟨rfl, rfl⟩
  | @executed id root rest answers k' site' path run =>
    obtain ⟨linked, live, starts⟩ := h.numbered.path path
    have executed : k.isExecuted root = true :=
      (h.executed root).mpr ⟨live root List.mem_cons_self, .inl starts⟩
    obtain ⟨follows, tracked, none⟩ :=
      run.tracked h executed linked fun x mem => live x (List.mem_cons_of_mem _ mem)
    exact ⟨follows, by rwa [none]⟩
  | refreshed => exact same ⟨h.booted, h.numbered, h.recorded, h.executed⟩ ⟨rfl, rfl⟩

theorem Tracked.post (h : Tracked n done k) (line : String) (site : Site)
    (few : n + issuedIn (k.post line site).1.answers ≤ StateId.greatest.toNat) :
    k.document.Follows done (executedIn (k.post line site).1.answers) ∧
      Tracked (n + issuedIn (k.post line site).1.answers)
        (done ++ executedIn (k.post line site).1.answers) (k.post line site).2.1 := by
  obtain ⟨c, answers, k', site', -, outcome, posted⟩ := outcome_post h.serving line site
  rw [posted] at few ⊢
  simp only [answers_encoded outcome.transparent] at few ⊢
  exact outcome.tracked h few

theorem Tracked.run {s : SimulatedKernel × Site} (h : Tracked n done s.1) (acts : List Act)
    (few : n + issuedIn (answered s acts) ≤ StateId.greatest.toNat) :
    Tracked (n + issuedIn (answered s acts)) (done ++ executedIn (answered s acts))
        (after s acts).1 ∧
      (done.Nodup → (done ++ executedIn (answered s acts)).Nodup) := by
  -- The count and the list of the states told so far are carried through the run.
  induction acts generalizing s n done with
  | nil =>
    have none : executedIn (answered s []) = [] := rfl
    rw [none, List.append_nil]
    exact ⟨h, id⟩
  | cons a acts ih =>
    cases a with
    | disturb change => exact ih (s := (s.1, change s.2)) h few
    | post line =>
      rw [answered_post, issuedIn_append, ← Nat.add_assoc] at few ⊢
      rw [executedIn_append, ← List.append_assoc]
      obtain ⟨follows, tracked⟩ := h.post line s.2 (Nat.le_trans (Nat.le_add_right _ _) few)
      obtain ⟨later, once⟩ := ih tracked few
      exact ⟨later, fun before => once (follows.nodup before)⟩

private theorem Execution.issuedIn_eq {good : StateId} (run : Execution k good rest answers k') :
    issuedIn answers = 0 := by
  induction run with
  | done => rfl
  | skip _ _ ih => exact ih
  | stop => rfl
  | go _ _ ih => exact ih

private theorem Outcome.issuedIn_le (outcome : Outcome k site c answers k' site') :
    issuedIn answers ≤ 1 := by
  cases outcome with
  | refused => exact Nat.zero_le _
  | shown _ shows _ => exact (told_of_shows shows).2 ▸ Nat.zero_le 1
  | rooted => exact Nat.le_refl 1
  | added text verbose _ => exact Nat.le_of_eq (told_of_added _ _ verbose).2
  | removed => exact Nat.zero_le _
  | executed _ run => exact run.issuedIn_eq ▸ Nat.zero_le 1
  | refreshed => exact Nat.zero_le _

theorem issuedIn_answered_le {s : SimulatedKernel × Site} (h : s.1.Serving) (acts : List Act) :
    issuedIn (answered s acts) ≤ (Kernel.posts acts).length := by
  induction acts generalizing s with
  | nil => exact Nat.le_refl 0
  | cons a acts ih =>
    have later := ih (serving_meet h a)
    cases a with
    | disturb change => exact later
    | post line =>
      obtain ⟨c, answers, k', site', -, outcome, posted⟩ := outcome_post h line s.2
      have first : issuedIn (s.1.post line s.2).1.answers ≤ 1 := by
        rw [posted, answers_encoded outcome.transparent]
        exact outcome.issuedIn_le
      rw [answered_post, issuedIn_append]
      exact Nat.le_trans (Nat.add_le_add first later) (Nat.le_of_eq (Nat.add_comm _ _))

theorem answers_goals (h : k.Serving) {line : String} (asked : Command.decode line = .ok (.goals id))
    (site : Site) :
    (∃ goals, (k.post line site).1.answers = [.goalInfo id goals]) ↔
      k.isExecuted id = true ∧ k.document.isLive id = true := by
  have transparent := (outcome_serve h.anchored site (.goals id)).transparent
  rw [post_command h.booted asked, answers_encoded transparent, serve, ← Bool.and_eq_true]
  split
  · rename_i shown
    exact iff_of_true ⟨_, rfl⟩ shown
  · rename_i hidden
    refine iff_of_false ?_ hidden
    rintro ⟨goals, same⟩
    cases same

theorem tracked_boot {reject : String → Option String} {polls : Nat} {order : BootOrder}
    (started : (new reject polls).boot order site = (.ok (), k, site')) : Tracked 0 [] k := by
  rw [boot_eq started]
  exact ⟨rfl, .new, nofun, fun x =>
    iff_of_false Bool.false_ne_true fun told => Bool.false_ne_true told.1⟩

/--
In every run of a started kernel that gives out no more numbers than there are: no state is told to
be executed twice; each one is told after its parent, unless that is the root; and goals are shown
exactly at the live states that are the root or were told to be executed.
-/
theorem executed_once_after_parent {reject : String → Option String} {polls : Nat}
    {order : BootOrder} (started : (new reject polls).boot order site' = (.ok (), k, site))
    (acts : List Act) (few : issuedIn (answered (k, site) acts) < UInt64.size) :
    (executedIn (answered (k, site) acts)).Nodup ∧
    ∀ front line back, acts = front ++ .post line :: back →
      let told := executedIn (answered (k, site) front)
      let document := (after (k, site) front).1.document
      let reply := ((after (k, site) front).1.post line (after (k, site) front).2).1.answers
      (∀ before x later, executedIn reply = before ++ x :: later →
        ∃ p, document.parentOf x = some p ∧ (document.root = some p ∨ p ∈ told ++ before)) ∧
      ∀ id, Command.decode line = .ok (.goals id) →
        ((∃ goals, reply = [.goalInfo id goals]) ↔
          document.isLive id = true ∧ (document.root = some id ∨ id ∈ told)) := by
  have enough : 0 + issuedIn (answered (k, site) acts) ≤ StateId.greatest.toNat := by
    rw [Nat.zero_add]
    exact Nat.le_of_lt_succ few
  have start : Tracked 0 [] k := tracked_boot started
  refine ⟨(start.run (s := (k, site)) acts enough).2 List.nodup_nil, ?_⟩
  rintro front line back rfl told document reply
  rw [answered_append, answered_post, issuedIn_append, issuedIn_append, ← Nat.add_assoc,
    ← Nat.add_assoc] at enough
  have now := Nat.le_of_add_right_le enough
  have tracked := (start.run (s := (k, site)) front (Nat.le_of_add_right_le now)).1
  rw [List.nil_append] at tracked
  refine ⟨fun before x later split => ?_, fun id asked => ?_⟩
  · have follows := (tracked.post line (after (k, site) front).2 now).1
    exact follows.parent_before split
  · rw [answers_goals tracked.serving asked, tracked.executed id]
    constructor
    · exact And.left
    · exact fun shown => ⟨shown, shown.1⟩

theorem executed_once_after_parent_sentence :
    let start := ({ new (fun _ => none) 1 with booted := true }, bareSite)
    let exec := Act.post (Command.encode (.exec 2))
    let acts := [.post (Command.encode .init), .post (Command.encode (.add none none "a." false)),
      exec, exec]
    executedIn (answered start acts) = [2] ∧ (executedIn (answered start acts)).Nodup := by
  intro start exec acts
  have told : executedIn (answered start acts) = [2] ∧ issuedIn (answered start acts) = 2 := by
    decide +kernel
  have few : issuedIn (answered start acts) < UInt64.size := by
    rw [told.2]
    decide
  exact ⟨told.1, (executed_once_after_parent (boot_bareSite _ _) acts few).1⟩

end SimulatedKernel

end ProofHost
