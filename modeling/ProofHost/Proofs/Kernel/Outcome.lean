import ProofHost.Kernel.Simulated
import ProofHost.Proofs.Document.Refusal
import ProofHost.Proofs.Kernel.Run
import ProofHost.Proofs.Wire.RoundTrip

/-!
All that a kernel inside the host can do with a command: it refuses, it shows something, or it
changes its document, its executed states or its modules in the one way that the command asks for.
Whatever it answers, the text of the answer says all of it.
-/

set_option autoImplicit false

namespace ProofHost

open Json

variable {k k' : SimulatedKernel} {site site' : Site} {c : Command} {answers : List Answer}
  {id good bad : StateId} {rest : List StateId}

def Command.asks : Command → Bool
  | goals .. => true
  | query .. => true
  | inspect .. => true
  | _ => false

/-- An answer that shows something of a state and tells of no change. -/
inductive Answer.Shows : Answer → Prop
  | goals (state : StateId) (goals : Option Json) : Shows (.goalInfo state goals)
  | note (state : StateId) (route : UInt32) (level : Level) (fields : List (String × Json)) :
    Shows (SimulatedKernel.feedback state route level (.object fields))

namespace SimulatedKernel

def processed (id : StateId) : Answer := .feedback ⟨id, 0, .info, .array [.string "Processed"]⟩

@[simp] theorem document_prune (k : SimulatedKernel) : k.prune.document = k.document := rfl

private theorem transparent_feedback (state : StateId) (route : UInt32) (level : Level)
    {contents : Json}
    (h : contents.Within 2) : (feedback state route level contents).Transparent := by
  refine Answer.transparent nofun (fun v hv => ?_) (by decide : 2 + 2 ≤ maxDepth)
  rw [List.mem_singleton.mp hv]
  exact h

private theorem transparent_processed (id : StateId) : (processed id).Transparent :=
  transparent_feedback id defaultRoute .info (by simp)

private theorem transparent_failed (location : Option Span) (rollback : Option (StateId × StateId))
    (reason : String) : (Answer.failed location rollback reason).Transparent :=
  Answer.transparent nofun nofun (by decide : 0 + 2 ≤ maxDepth)

private theorem within_snapshot (statement : List Char) : (Goals.snapshot statement).Within 4 := by
  have goal : ∀ f ∈ [("hyp", Json.array []), ("ty", .string (String.ofList statement))],
      f.2.Within 1 := by simp
  have opened := within_record ["hyp", "ty"] rfl (by decide) goal
  refine within_record ["given_up", "goals", "shelf", "stack"] rfl (by decide) ?_
  simp [opened]

theorem transparent_ofGoals (k : SimulatedKernel) (id : StateId) :
    (Answer.ofGoals id (k.goals id)).Transparent := by
  refine Answer.transparent (fun state same => ?_) (fun v hv => ?_) (by decide : 4 + 2 ≤ maxDepth)
  · have null := (Answer.goalInfo.inj same).2
    simp [Option.filter_eq_some_iff] at null
  · have shown : v ∈ k.goals id := (Option.mem_filter_iff.mp (Option.mem_toList.mp hv)).1
    unfold goals at shown
    split at shown
    · cases shown
    · obtain ⟨statement, -, rfl⟩ := Option.map_eq_some_iff.mp shown
      exact within_snapshot statement

/--
The ways in which a kernel executes the states after a good one: it passes over those that are
executed, and at each of the others it stops and goes back, or executes the state and goes on.
-/
inductive Execution : SimulatedKernel → StateId → List StateId → List Answer →
    SimulatedKernel → Prop
  | done (k : SimulatedKernel) (good : StateId) : Execution k good [] [] k
  | skip {k k' : SimulatedKernel} {good id : StateId} {rest : List StateId}
    {answers : List Answer} (executed : k.isExecuted id = true)
    (later : Execution k id rest answers k') : Execution k good (id :: rest) answers k'
  | stop {k : SimulatedKernel} {good id : StateId} {rest : List StateId}
    (new : k.isExecuted id = false) (location : Option Span) (reason : String) :
    Execution k good (id :: rest) [.failed location (some (good, id)) reason]
      { k with document := (k.document.rollback good id).2 }.prune
  | go {k k' : SimulatedKernel} {good id : StateId} {rest : List StateId} {answers : List Answer}
    (new : k.isExecuted id = false)
    (later : Execution { k with executed := id :: k.executed } id rest answers k') :
    Execution k good (id :: rest) (processed id :: answers) k'

private theorem execution_executeAfter (k : SimulatedKernel) (site : Site) (good : StateId)
    (rest : List StateId) :
    Execution k good rest (k.executeAfter site good rest).1 (k.executeAfter site good rest).2.1 := by
  induction rest generalizing k site good with
  | nil => exact .done k good
  | cons id rest ih =>
    rw [executeAfter]
    split
    · rename_i executed
      exact .skip executed (ih k site id)
    · rename_i new
      have new : k.isExecuted id = false := by simpa using new
      simp only
      split
      · exact .stop new none _
      · split
        · exact .stop new _ _
        · exact .go new (ih _ _ id)

private theorem Execution.transparent (h : Execution k good rest answers k') :
    ∀ a ∈ answers, a.Transparent := by
  induction h with
  | done => exact List.forall_mem_nil _
  | skip _ _ ih => exact ih
  | stop _ location reason =>
    exact List.forall_mem_singleton.mpr (transparent_failed location _ reason)
  | go _ _ ih => exact List.forall_mem_cons.mpr ⟨transparent_processed _, ih⟩

/-- What a kernel can give for a command: the answers, and the kernel and its place after them. -/
inductive Outcome (k : SimulatedKernel) (site : Site) :
    Command → List Answer → SimulatedKernel → Site → Prop
  | refused (c : Command) (reason : String) : Outcome k site c [refusal reason] k site
  | shown {c : Command} {answers : List Answer} (asks : c.asks = true)
    (shows : ∀ a ∈ answers, a.Shows) (transparent : ∀ a ∈ answers, a.Transparent) :
    Outcome k site c answers k site
  | rooted : Outcome k site .init [.ready k.document.issue.1]
      { k with document := k.document.init.2, executed := [k.document.issue.1] } site
  | added {editAt parent : Option StateId} {p : StateId} (text : String) (verbose : Bool)
    (resolved : k.document.resolveParent editAt parent = .ok p) :
    Outcome k site (.add editAt parent text verbose)
      (.added k.document.issue.1 (some (Span.ofText text)) ::
        if verbose then [feedback k.document.issue.1 defaultRoute .debug (ofTexts ["Added"])]
        else [])
      { k with
        document :=
          (k.document.cut editAt).issue.2.attach k.document.issue.1 p text }.prune site
  | removed {id tip : StateId} (live : k.document.isLive id = true)
    (notRoot : k.document.root ≠ some id) (done : k.document.cancel id = (.ok tip, k.document.prune id)) :
    Outcome k site (.cancel id) [.backTo tip]
      { k with document := k.document.prune id }.prune site
  | executed {id root : StateId} {rest : List StateId} {answers : List Answer}
    {k' : SimulatedKernel} {site' : Site} (path : k.document.path id = .ok (root :: rest))
    (run : Execution k root rest answers k') : Outcome k site (.exec id) answers k' site'
  | refreshed : Outcome k site .refreshLoadPath []
      { k with modules := Modules.scan site.host site.sandbox } site

private theorem path_ne_nil (d : Document) (id : StateId) : d.path id ≠ .ok [] := by
  intro empty
  have climbed (n : Nat) : d.climb n id ≠ some [] := by
    cases n <;> cases parent : d.parentOf id <;> simp [Document.climb, parent]
  unfold Document.path at empty
  cases accepted : d.ensureLive id with
  | error e => simp [accepted, bind, Except.bind] at empty
  | ok u =>
    rw [accepted] at empty
    dsimp only [bind, Except.bind] at empty
    split at empty
    · rename_i up found
      rw [List.reverse_eq_nil_iff.mp (Except.ok.inj empty)] at found
      exact climbed _ found
    · cases empty

theorem outcome_serve (anchored : k.document.Anchored) (site : Site) (c : Command) :
    Outcome k site c (k.serve site c).1 (k.serve site c).2.1 (k.serve site c).2.2 := by
  cases c with
  | init => exact .rooted
  | add editAt parent text verbose =>
    rw [serve]
    rcases k.document.add_cases editAt parent text with ⟨e, refused⟩ | ⟨p, resolved, done⟩
    · rw [refused]
      exact .refused _ e.message
    · rw [done]
      exact .added text verbose resolved
  | exec id =>
    rw [serve, execute]
    split
    · exact .refused _ _
    · rename_i empty
      exact absurd empty (path_ne_nil _ _)
    · rename_i root rest path
      exact .executed path (execution_executeAfter k site root rest)
  | cancel id =>
    rw [serve]
    rcases anchored.cancel_cases id with ⟨e, refused⟩ | ⟨tip, live, notRoot, done⟩
    · rw [refused]
      exact .refused _ e.message
    · rw [done]
      exact .removed live notRoot done
  | goals id =>
    rw [serve]
    split
    · exact .shown rfl (List.forall_mem_singleton.mpr (.goals id _))
        (List.forall_mem_singleton.mpr (transparent_ofGoals k id))
    · exact .refused _ _
  | query id route text =>
    rw [serve]
    split
    · exact .shown rfl (List.forall_mem_singleton.mpr (.note id route .notice _))
        (List.forall_mem_singleton.mpr (transparent_feedback _ _ _ (by simp)))
    · exact .refused _ _
  | inspect id route what =>
    rw [serve]
    split
    · refine .shown rfl ?_ ?_
      · exact List.forall_mem_map.mpr fun name _ => .note id route .info _
      · exact List.forall_mem_map.mpr fun name _ => transparent_feedback _ _ _ (by simp)
    · exact .refused _ _
  | refreshLoadPath => exact .refreshed

theorem Outcome.transparent (h : Outcome k site c answers k' site') :
    ∀ a ∈ answers, a.Transparent := by
  have shallow {a : Answer} (h : a.payloads = []) (snapshot : a.NoNullSnapshot) :
      a.Transparent := by
    refine Answer.transparent (n := 0) snapshot (fun v hv => ?_) (by decide)
    simp [h] at hv
  cases h with
  | refused _ reason => exact List.forall_mem_singleton.mpr (transparent_failed _ _ reason)
  | shown _ _ transparent => exact transparent
  | rooted => exact List.forall_mem_singleton.mpr (shallow rfl nofun)
  | added text verbose resolved =>
    refine List.forall_mem_cons.mpr ⟨shallow rfl nofun, ?_⟩
    split
    · exact List.forall_mem_singleton.mpr (transparent_feedback _ _ _ (by simp))
    · exact List.forall_mem_nil _
  | removed => exact List.forall_mem_singleton.mpr (shallow rfl nofun)
  | executed _ run => exact run.transparent
  | refreshed => exact List.forall_mem_nil _

structure Serving (k : SimulatedKernel) : Prop where
  booted : k.booted = true
  anchored : k.document.Anchored

theorem boot_eq {order : BootOrder} (started : k.boot order site = (.ok (), k', site')) :
    k' = { k with booted := true } := by
  unfold boot at started
  split at started
  · cases started
  · exact (congrArg (fun r => r.2.1) started).symm

def bareSite : Site :=
  .new .unreachable ⟨.directory [("k", .file [])], []⟩ ⟨"/", Sandbox.defaultLibRoot⟩

theorem boot_bareSite (reject : String → Option String) (polls : Nat) :
    (new reject polls).boot ⟨"/k", []⟩ bareSite =
      (.ok (), { new reject polls with booted := true }, bareSite) := by
  have present : firstMissing bareSite ["/k"] = none := by decide +kernel
  unfold boot
  simp only [present]

theorem serving_boot {reject : String → Option String} {polls : Nat} {order : BootOrder}
    (started : (new reject polls).boot order site = (.ok (), k, site')) : k.Serving := by
  rw [boot_eq started]
  exact ⟨rfl, .new⟩

private theorem Execution.serving (run : Execution k good rest answers k') (h : k.Serving) :
    k'.Serving := by
  induction run with
  | done => exact h
  | skip _ _ ih => exact ih h
  | stop => exact ⟨h.booted, h.anchored.edit (.rollback _ _)⟩
  | go _ _ ih => exact ih ⟨h.booted, h.anchored⟩

theorem Outcome.serving (outcome : Outcome k site c answers k' site') (h : k.Serving) :
    k'.Serving := by
  cases outcome with
  | refused => exact h
  | shown => exact h
  | rooted => exact ⟨h.booted, Document.anchored_reset _ _⟩
  | @added editAt parent p text verbose resolved =>
    have added := h.anchored.edit (.add editAt parent text)
    rw [Document.edit, Document.add_eq resolved] at added
    exact ⟨h.booted, added⟩
  | removed live notRoot _ => exact ⟨h.booted, h.anchored.prune live notRoot⟩
  | executed _ run => exact run.serving h
  | refreshed => exact ⟨h.booted, h.anchored⟩

theorem post_command (booted : k.booted = true) {line : String}
    (asked : Command.decode line = .ok c) (site : Site) :
    k.post line site = (⟨(k.serve site c).1.map Answer.encode, none⟩, (k.serve site c).2) := by
  simp [post, booted, asked]

theorem outcome_post (h : k.Serving) (line : String) (site : Site) :
    ∃ c answers k' site', (∀ c', Command.decode line = .ok c' → c' = c) ∧
      Outcome k site c answers k' site' ∧
      k.post line site = (⟨answers.map Answer.encode, none⟩, k', site') := by
  unfold post
  simp only [h.booted]
  cases Command.decode line with
  | error e => exact ⟨.init, _, k, site, nofun, .refused .init _, rfl⟩
  | ok c =>
    exact ⟨c, _, _, _, fun _ same => (Except.ok.inj same).symm, outcome_serve h.anchored site c, rfl⟩

theorem answers_encoded {failure : Option KernelError}
    (transparent : ∀ a ∈ answers, a.Transparent) :
    Reply.answers ⟨answers.map Answer.encode, failure⟩ = answers := by
  have read : ∀ a ∈ answers, (Answer.ofLine ∘ Answer.encode) a = id a := by
    intro a mem
    simp [Answer.ofLine, Answer.decode_encode (transparent a mem)]
  rw [Reply.answers, List.map_map, List.map_congr_left read, List.map_id]

theorem serving_meet {s : SimulatedKernel × Site} (h : s.1.Serving) (a : Kernel.Act) :
    (Kernel.meet s a).2.1.Serving := by
  cases a with
  | disturb change => exact h
  | post line =>
    obtain ⟨c, answers, k', site', -, outcome, posted⟩ := outcome_post h line s.2
    exact (congrArg (fun r => r.2.1) posted) ▸ outcome.serving h

end SimulatedKernel

end ProofHost
