import ProofHost.Proofs.Document.Ancestry
import ProofHost.Proofs.Document.Orderly
import ProofHost.Proofs.Kernel.Execution

/-!
The states that a kernel inside the host can be in, however it is started and whatever is posted to
it at whatever places. As long as there are numbers left its document comes about by orderly edits,
and what is executed is live. Something is executed only where the kernel is started and has a root.
-/

set_option autoImplicit false

namespace ProofHost

namespace SimulatedKernel

variable {k k' : SimulatedKernel} {site site' : Site} {c : Command} {answers : List Answer}
  {root good x : StateId} {rest : List StateId}

/-- The kernels that come about by starting and posting, each time at any place. -/
inductive Reachable : SimulatedKernel → Prop
  | new (reject : String → Option String) (polls : Nat) : Reachable (new reject polls)
  | boot {k : SimulatedKernel} (reached : Reachable k) (order : BootOrder) (site : Site) :
    Reachable (k.boot order site).2.1
  | post {k : SimulatedKernel} (reached : Reachable k) (line : String) (site : Site) :
    Reachable (k.post line site).2.1

private theorem boot_keeps (k : SimulatedKernel) (order : BootOrder) (site : Site) :
    (k.boot order site).2.1.document = k.document ∧
      (k.boot order site).2.1.executed = k.executed := by
  unfold boot
  split <;> exact ⟨rfl, rfl⟩

private theorem post_cases (anchored : k.document.Anchored) (line : String) (site : Site) :
    (k.post line site).2.1 = k ∨ k.Serving ∧
      ∃ c answers site', Outcome k site c answers (k.post line site).2.1 site' := by
  cases booted : k.booted with
  | false =>
    left
    simp [post, booted]
  | true =>
    have serving : k.Serving := ⟨booted, anchored⟩
    obtain ⟨c, answers, k', site', -, outcome, posted⟩ := outcome_post serving line site
    right
    rw [posted]
    exact ⟨serving, c, answers, site', outcome⟩

theorem Reachable.anchored (reached : Reachable k) : k.document.Anchored := by
  induction reached with
  | new => exact .new
  | boot _ order site ih =>
    rw [(boot_keeps _ order site).1]
    exact ih
  | post _ line site ih =>
    rcases post_cases ih line site with same | ⟨serving, c, answers, site', outcome⟩
    · rw [same]
      exact ih
    · exact (outcome.serving serving).anchored

private theorem Execution.recorded (run : Execution k good rest answers k')
    (recorded : k.document.wasIssued x = true) : k'.document.wasIssued x = true := by
  induction run with
  | done => exact recorded
  | skip _ _ ih => exact ih recorded
  | @stop k good id _ _ _ _ => exact Document.wasIssued_edit recorded (.rollback good id)
  | go _ _ ih => exact ih recorded

private theorem Outcome.recorded (outcome : Outcome k site c answers k' site')
    (recorded : k.document.wasIssued x = true) : k'.document.wasIssued x = true := by
  cases outcome with
  | refused => exact recorded
  | shown => exact recorded
  | rooted => exact Document.wasIssued_edit recorded .init
  | @added editAt parent _ text _ resolved =>
    have added := Document.wasIssued_edit recorded (.add editAt parent text)
    rwa [Document.edit, Document.add_eq resolved] at added
  | removed => exact Document.wasIssued_killed.trans recorded
  | executed _ run => exact run.recorded recorded
  | refreshed => exact recorded

private theorem Execution.edited (run : Execution k good rest answers k')
    (own : Document.EditedBy (fun _ e => e.isOwn = true) k.document) :
    Document.EditedBy (fun _ e => e.isOwn = true) k'.document := by
  induction run with
  | done => exact own
  | skip _ _ ih => exact ih own
  | @stop k good id => exact .edit own (.rollback good id) rfl
  | go _ _ ih => exact ih own

private theorem Outcome.edited (outcome : Outcome k site c answers k' site')
    (own : Document.EditedBy (fun _ e => e.isOwn = true) k.document) :
    Document.EditedBy (fun _ e => e.isOwn = true) k'.document := by
  cases outcome with
  | refused => exact own
  | shown => exact own
  | rooted => exact .edit own .init rfl
  | @added editAt parent _ text _ resolved =>
    have added := Document.EditedBy.edit own (.add editAt parent text) rfl
    rwa [Document.edit, Document.add_eq resolved] at added
  | @removed id _ _ _ done =>
    have removed := Document.EditedBy.edit own (.cancel id) rfl
    rwa [Document.edit, done] at removed
  | executed _ run => exact run.edited own
  | refreshed => exact own

theorem Reachable.edited (reached : Reachable k) :
    Document.EditedBy (fun _ e => e.isOwn = true) k.document := by
  induction reached with
  | new => exact .new
  | boot _ order site ih =>
    rw [(boot_keeps _ order site).1]
    exact ih
  | post reached line site ih =>
    rcases post_cases reached.anchored line site with same | ⟨-, c, answers, site', outcome⟩
    · rw [same]
      exact ih
    · exact outcome.edited ih

/-- The document comes about by orderly edits, and what is executed is live. -/
structure InOrder (k : SimulatedKernel) : Prop where
  edited : k.document.EditedBy Document.Orderly
  executed : ∀ x, k.isExecuted x = true → k.document.isLive x = true

private theorem InOrder.edit (h : k.InOrder) {e : Edit} (orderly : k.document.Orderly e) :
    ({ k with document := k.document.edit e } : SimulatedKernel).prune.InOrder :=
  ⟨.edit h.edited e orderly, fun _ executed => (isExecuted_prune.mp executed).2⟩

/-- Along a branch of live states an execution goes back by an orderly edit, if it has to. -/
private theorem Execution.inOrder (run : Execution k good rest answers k') (h : k.InOrder)
    (branching : k.document.Branching root)
    (linked : (good :: rest).IsChain fun p x => k.document.parentOf x = some p)
    (live : ∀ x ∈ rest, k.document.isLive x = true) : k'.InOrder := by
  induction run with
  | done => exact h
  | skip _ _ ih =>
    exact ih h branching (List.isChain_cons_cons.mp linked).2 (List.forall_mem_cons.mp live).2
  | stop =>
    exact h.edit (branching.orderly_rollback (List.forall_mem_cons.mp live).1
      (List.isChain_cons_cons.mp linked).1)
  | @go k k' good id rest answers _ _ ih =>
    obtain ⟨liveId, live⟩ := List.forall_mem_cons.mp live
    refine ih ⟨h.edited, fun x executed => ?_⟩ branching (List.isChain_cons_cons.mp linked).2 live
    rcases List.mem_cons.mp (List.contains_iff_mem.mp executed) with rfl | mem
    · exact liveId
    · exact h.executed x (List.contains_iff_mem.mpr mem)

private theorem Outcome.inOrder (outcome : Outcome k site c answers k' site') (h : k.InOrder)
    (bounded : ∀ e ∈ k.document.entries, e.id < StateId.greatest) : k'.InOrder := by
  cases outcome with
  | refused => exact h
  | shown => exact h
  | rooted =>
    refine ⟨.edit h.edited .init trivial, fun x executed => ?_⟩
    have same : x = k.document.issue.1 := by simpa [isExecuted] using executed
    exact Document.isLive_reset.mpr same
  | @added editAt parent _ text _ resolved =>
    have added := h.edit (e := .add editAt parent text) trivial
    rwa [Document.edit, Document.add_eq resolved] at added
  | @removed id _ _ _ done =>
    have removed := h.edit (e := .cancel id) trivial
    rwa [Document.edit, done] at removed
  | @executed _ root _ _ _ _ path run =>
    have numbered := h.edited.numbered bounded
    obtain ⟨linked, live, -⟩ := numbered.path path
    obtain ⟨liveRoot, live⟩ := List.forall_mem_cons.mp live
    obtain ⟨_, rooted⟩ := numbered.rooted_of_isLive liveRoot
    exact run.inOrder h rooted.toBranching linked live
  | refreshed => exact ⟨h.edited, h.executed⟩

theorem Reachable.inOrder (reached : Reachable k)
    (bounded : ∀ e ∈ k.document.entries, e.id < StateId.greatest) : k.InOrder := by
  induction reached with
  | new => exact ⟨.new, nofun⟩
  | @boot k _ order site ih =>
    obtain ⟨document, executed⟩ := boot_keeps k order site
    rw [document] at bounded
    refine ⟨document ▸ (ih bounded).edited, ?_⟩
    simp only [isExecuted, executed, document]
    exact (ih bounded).executed
  | @post k reached line site ih =>
    rcases post_cases reached.anchored line site with same | ⟨-, c, answers, site', outcome⟩
    · rw [same] at bounded ⊢
      exact ih bounded
    · have before : ∀ e ∈ k.document.entries, e.id < StateId.greatest := by
        intro e mem
        obtain ⟨later, mem', same⟩ := Document.exists_mem_of_wasIssued
          (outcome.recorded (Document.wasIssued_of_mem mem))
        exact same ▸ bounded later mem'
      exact outcome.inOrder (ih before) before

theorem Reachable.after {s : SimulatedKernel × Site} (reached : Reachable s.1)
    (acts : List Kernel.Act) : Reachable (Kernel.after s acts).1 := by
  induction acts generalizing s with
  | nil => exact reached
  | cons a acts ih =>
    cases a with
    | post line => exact ih (s := Kernel.post s.1 line s.2 |>.2) (reached.post line s.2)
    | disturb change => exact ih (s := (s.1, change s.2)) reached

private theorem Execution.root_eq (run : Execution k good rest answers k') :
    k'.document.root = k.document.root := by
  induction run with
  | done => rfl
  | skip _ _ ih => exact ih
  | @stop k good id =>
    obtain ⟨dead, tip, back⟩ := k.document.rollback_eq_killed good id
    simp only [document_prune, back]
  | go _ _ ih => exact ih

private theorem isSome_root_of_path {branch : List StateId}
    (path : k.document.path x = .ok branch) :
    k.document.root.isSome = true := by
  unfold Document.path at path
  rcases k.document.ensureLive_cases x with ⟨e, refused⟩ | ⟨-, hasRoot, -⟩
  · rw [refused] at path
    cases path
  · exact hasRoot

private theorem Outcome.isSome_root (outcome : Outcome k site c answers k' site')
    (before : k.isExecuted x = true → k.document.root.isSome = true)
    (executed : k'.isExecuted x = true) : k'.document.root.isSome = true := by
  cases outcome with
  | refused => exact before executed
  | shown => exact before executed
  | rooted => rfl
  | @added editAt _ _ _ _ resolved =>
    show (k.document.cut editAt).root.isSome = true
    rw [Document.root_cut]
    exact (Document.isLive_of_resolveParent resolved).1
  | removed => exact before (isExecuted_prune.mp executed).1
  | executed path run =>
    rw [run.root_eq]
    exact isSome_root_of_path path
  | refreshed => exact before executed

private theorem booted_boot (k : SimulatedKernel) (order : BootOrder) (site : Site)
    (booted : k.booted = true) : (k.boot order site).2.1.booted = true := by
  unfold boot
  split
  · exact booted
  · rfl

theorem Reachable.serving (reached : Reachable k) (executed : k.isExecuted x = true) :
    k.Serving ∧ k.document.root.isSome = true := by
  induction reached with
  | new => cases executed
  | @boot k reached order site ih =>
    obtain ⟨document, sameExecuted⟩ := boot_keeps k order site
    rw [isExecuted, sameExecuted] at executed
    obtain ⟨serving, hasRoot⟩ := ih executed
    refine ⟨⟨booted_boot k order site serving.booted, (reached.boot order site).anchored⟩, ?_⟩
    rw [document]
    exact hasRoot
  | @post k reached line site ih =>
    rcases post_cases reached.anchored line site with
      same | ⟨serving, c, answers, site', outcome⟩
    · rw [same] at executed ⊢
      exact ih executed
    · exact ⟨outcome.serving serving, outcome.isSome_root (fun before => (ih before).2) executed⟩

end SimulatedKernel

end ProofHost
