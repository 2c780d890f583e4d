import ProofHost.Proofs.Document.Cancelling
import ProofHost.Proofs.Kernel.Reachable

/-!
A sentence that is added to a kernel and cancelled at once leaves everything as it was, but for the
tip, the counter and a dead record, wherever in the tree it was put and whatever is executed
elsewhere.
-/

set_option autoImplicit false

namespace ProofHost

namespace SimulatedKernel

variable {k : SimulatedKernel} {site : Site} {c : Command} {root id : StateId}

private theorem added_of_answer (anchored : k.document.Anchored) {editAt parent : Option StateId}
    {text line : String} {verbose : Bool} {span : Option Span}
    (asked : Command.decode line = .ok (.add editAt parent text verbose))
    (told : .added id span ∈ (k.post line site).1.answers) :
    k.booted = true ∧ id = k.document.issue.1 ∧
      ∃ p, k.document.resolveParent editAt parent = .ok p ∧
        (k.post line site).2.1 = { k with
          document := (k.document.cut editAt).issue.2.attach k.document.issue.1 p text }.prune := by
  have booted : k.booted = true := by
    refine Bool.eq_false_imp_eq_true.mp fun stopped => ?_
    simp [post, stopped, Reply.answers] at told
  obtain ⟨c, answers, k', site', same, outcome, posted⟩ := outcome_post ⟨booted, anchored⟩ line site
  obtain rfl := same _ asked
  rw [posted, answers_encoded outcome.transparent] at told
  rw [posted]
  cases outcome with
  | refused => cases List.mem_singleton.mp told
  | shown asks => cases asks
  | @added _ _ p _ _ resolved =>
    refine ⟨booted, ?_, p, resolved, rfl⟩
    rcases List.mem_cons.mp told with first | note
    · exact (Answer.added.inj first).1
    · split at note
      · cases List.mem_singleton.mp note
      · cases note

private theorem InOrder.prune_eq (h : k.InOrder) {d : Document}
    (keeps : ∀ x, k.document.isLive x = true → d.isLive x = true) :
    ({ k with document := d } : SimulatedKernel).prune = { k with document := d } := by
  have all : k.executed.filter d.isLive = k.executed := by
    refine List.filter_eq_self.mpr fun x mem => keeps x (h.executed x ?_)
    exact List.contains_iff_mem.mpr mem
  rw [SimulatedKernel.prune]
  simp only [all]

private theorem InOrder.post_cancel_added (h : k.InOrder) (booted : k.booted = true)
    (rooted : k.document.Rooted root)
    (above : ∀ e ∈ k.document.entries, e.id < k.document.issue.1) {line : String}
    (cancels : Command.decode line = .ok (.cancel k.document.issue.1)) (p : StateId) (text : String)
    (site : Site) :
    ({ k with document := k.document.issue.2.attach k.document.issue.1 p text } :
        SimulatedKernel).post line site =
      (⟨[(Answer.backTo p).encode], none⟩, { k with document := k.document.takenBack p text },
        site) := by
  have pruned := h.prune_eq (d := k.document.takenBack p text) fun x live =>
    Document.isLive_takenBack live
  have running : ({ k with document := k.document.issue.2.attach k.document.issue.1 p text } :
      SimulatedKernel).booted = true := booted
  rw [post_command running cancels, serve, rooted.cancel_added above p text]
  simp only [List.map_cons, List.map_nil, pruned]

/--
In every state that a kernel can be in with numbers left: if a sentence is added without an edit
point, on the given state or on the tip, then to cancel it next is answered by the state on which it
was put, and nothing else. After that the live states, the executed ones, and the parents and the
texts of the live ones are what they were. Indeed the whole kernel is, but for the tip, which is
that state, the counter, and the dead record of the sentence.
-/
theorem cancel_takes_back_add (reached : Reachable k)
    (bounded : ∀ e ∈ k.document.entries, e.id < StateId.greatest) {parent : Option StateId}
    {text line line' : String} {verbose : Bool} {span : Option Span}
    (adds : Command.decode line = .ok (.add none parent text verbose))
    (told : .added id span ∈ (k.post line site).1.answers)
    (cancels : Command.decode line' = .ok (.cancel id)) (site' : Site) :
    let added := (k.post line site).2.1
    let undone := (added.post line' site').2.1
    ∃ p, parent.or k.document.tip = some p ∧ added.document.parentOf id = some p ∧
      (added.post line' site').1 = ⟨[(Answer.backTo p).encode], none⟩ ∧
      undone.document.liveIds = k.document.liveIds ∧ undone.executed = k.executed ∧
      (∀ x, k.document.isLive x = true → undone.document.parentOf x = k.document.parentOf x ∧
        undone.document.textOf x = k.document.textOf x) ∧
      undone.document.tip = some p ∧
      undone = { k with document := k.document.takenBack p text } := by
  intro added undone
  have inOrder := reached.inOrder bounded
  have numbered := inOrder.edited.numbered bounded
  obtain ⟨booted, rfl, p, resolved, pruned⟩ := added_of_answer reached.anchored adds told
  obtain ⟨root, rooted⟩ :=
    numbered.rooted_of_isLive (Document.isLive_of_resolveParent resolved).2.1
  have isAdded : added = { k with
      document := k.document.issue.2.attach k.document.issue.1 p text } := by
    refine pruned.trans (inOrder.prune_eq fun x live => ?_)
    exact Document.isLive_attach.mpr (Or.inr live)
  have cancelled : added.post line' site' = (⟨[(Answer.backTo p).encode], none⟩,
      { k with document := k.document.takenBack p text }, site') := by
    rw [isAdded]
    exact inOrder.post_cancel_added booted rooted (numbered.counted.lt_issue bounded) cancels p text
      site'
  have isUndone : undone = { k with document := k.document.takenBack p text } :=
    congrArg (fun r => r.2.1) cancelled
  refine ⟨p, Document.or_tip_of_resolveParent resolved, ?_, congrArg Prod.fst cancelled, ?_, ?_, ?_,
    ?_, isUndone⟩
  · rw [isAdded, Document.parentOf_attach, if_pos rfl]
  · rw [isUndone]
    exact Document.liveIds_takenBack
  · rw [isUndone]
  · intro x live
    have same : (k.document.takenBack p text).find? x = k.document.find? x :=
      Document.find?_takenBack (Document.wasIssued_of_isLive live)
    rw [isUndone, Document.parentOf, Document.textOf, same]
    exact ⟨rfl, rfl⟩
  · rw [isUndone]
    rfl

def obliging : SimulatedKernel := { new (fun _ => none) 0 with booted := true }

def twoBranches : List Kernel.Act :=
  [.post (Command.encode .init), .post (Command.encode (.add none none "a." false)),
    .post (Command.encode (.exec 2)), .post (Command.encode (.add none (some 1) "b." false))]

theorem cancel_takes_back_add_elsewhere :
    let s := Kernel.after (obliging, bareSite) twoBranches
    let added := (s.1.post (Command.encode (.add none (some 2) "c." true)) s.2).2.1
    let undone := added.post (Command.encode (.cancel 4)) s.2
    s.1.document.tip = some 3 ∧ s.1.executed = [2, 1] ∧
      undone.1 = ⟨[(Answer.backTo 2).encode], none⟩ ∧ undone.2.1.document.tip = some 2 ∧
      undone.2.1.document.liveIds = s.1.document.liveIds ∧ undone.2.1.executed = [2, 1] := by
  intro s added undone
  have reached : Reachable s.1 := by
    have started := Reachable.boot (.new (fun _ => none) 0) ⟨"/k", []⟩ bareSite
    rw [boot_bareSite] at started
    exact started.after (s := (obliging, bareSite)) twoBranches
  have before : s.1.document = ⟨[⟨1, none, "", true⟩, ⟨2, some 1, "a.", true⟩,
      ⟨3, some 1, "b.", true⟩], some 1, some 3, 4⟩ := by
    decide +kernel
  have executed : s.1.executed = [2, 1] := by decide +kernel
  have told : .added 4 (some (Span.ofText "c.")) ∈
      (s.1.post (Command.encode (.add none (some 2) "c." true)) s.2).1.answers := by
    decide +kernel
  clear_value s
  obtain ⟨p, given, -, answered, live, same, -, tip, -⟩ := cancel_takes_back_add reached
    (by rw [before]; decide) (Command.decode_encode _) told (Command.decode_encode _) s.2
  obtain rfl : 2 = p := Option.some.inj given
  exact ⟨by rw [before], executed, answered, tip, live, same.trans executed⟩

end SimulatedKernel

end ProofHost
