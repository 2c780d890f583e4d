import ProofHost.Proofs.Document.Numbering
import ProofHost.Proofs.Kernel.Outcome
import ProofHost.Session.Basic

/-!
What the answers of a kernel tell about its document. To whatever command they belong, a document
that was equal to that of the kernel before is equal to it again after all answers to the command,
and each answer says all of itself in its text.
-/

set_option autoImplicit false

namespace ProofHost

variable {d : Document} {n : Nat} {k k' : SimulatedKernel} {site site' : Site} {c : Command}
  {answers : List Answer}

namespace Document

@[simp] theorem track_feedback (state : StateId) (route : UInt32) (level : Level) (contents : Json) :
    d.track c (SimulatedKernel.feedback state route level contents) = d := by
  cases c <;> rfl

private theorem track_processed (id : StateId) : d.track c (SimulatedKernel.processed id) = d :=
  track_feedback id 0 .info (.array [.string "Processed"])

@[simp] theorem track_refusal (reason : String) : d.track c (SimulatedKernel.refusal reason) = d := by
  cases c <;> rfl

@[simp] theorem track_goalInfo (state : StateId) (goals : Option Json) :
    d.track c (.goalInfo state goals) = d := by
  cases c <;> rfl

private theorem track_rollback (location : Option Span) (good bad : StateId) (reason : String) :
    d.track c (.failed location (some (good, bad)) reason) = (d.rollback good bad).2 := by
  cases c <;> rfl

theorem Numbered.anchored (h : d.Numbered n) : d.Anchored := by
  rcases h.blank_or_rooted with blank | ⟨root, rooted⟩
  · refine ⟨fun rooted => ?_, fun x live _ => ?_⟩
    · simp [blank.noRoot] at rooted
    · obtain ⟨root, rooted⟩ := h.rooted_of_isLive live
      exact absurd rooted.isRoot (by simp [blank.noRoot])
  · refine ⟨fun _ => ?_, fun x live noParent => ?_⟩
    · obtain ⟨tip, isTip, -⟩ := rooted.liveTip
      rw [isTip]
      rfl
    · by_contra notRoot
      have ne : x ≠ root := fun same => notRoot (same ▸ rooted.isRoot)
      obtain ⟨p, parent, -⟩ := rooted.parent x live ne
      exact absurd noParent (by simp [parent])

theorem Numbered.rollback_child {good bad : StateId} (h : d.Numbered n)
    (live : d.isLive bad = true) (parent : d.parentOf bad = some good) :
    (d.rollback good bad).2.Numbered n := by
  obtain ⟨root, rooted⟩ := h.rooted_of_isLive live
  have less := rooted.toBranching.lt_of_builtOn (.child live parent)
  refine h.rollback (UInt64.ne_of_lt less) fun below => ?_
  exact UInt64.lt_irrefl _ (UInt64.lt_trans less (rooted.toBranching.lt_of_builtOn below))

theorem Numbered.path {id : StateId} {branch : List StateId} (h : d.Numbered n)
    (found : d.path id = .ok branch) :
    branch.IsChain (fun p x => d.parentOf x = some p) ∧ (∀ x ∈ branch, d.isLive x = true) ∧
      d.root = branch.head? := by
  have accepted : d.ensureLive id = .ok () ∧ d.isLive id = true := by
    rcases ensureLive_cases d id with ⟨e, refused⟩ | ⟨accepted, -, live⟩
    · simp [Document.path, refused, bind, Except.bind] at found
    · exact ⟨accepted, live⟩
  obtain ⟨root, rooted⟩ := h.rooted_of_isLive accepted.2
  obtain ⟨same, found', isBranch⟩ := rooted.toBranching.path accepted.2
  cases found.symm.trans found'
  exact ⟨isBranch.linked, isBranch.live, rooted.isRoot.trans isBranch.starts.symm⟩

end Document

namespace SimulatedKernel

structure Followed (c : Command) (n : Nat) (d : Document)
    (r : List Answer × SimulatedKernel × Site) : Prop where
  transparent : ∀ a ∈ r.1, a.Transparent
  mirrored : r.1.foldl (fun d a => d.track c a) d = r.2.1.document
  numbered : r.2.1.document.Numbered n

private theorem foldl_track_unchanged (unchanged : ∀ a ∈ answers, d.track c a = d) :
    answers.foldl (fun d a => d.track c a) d = d := by
  induction answers with
  | nil => rfl
  | cons a answers ih =>
    obtain ⟨first, others⟩ := List.forall_mem_cons.mp unchanged
    rw [List.foldl_cons, first]
    exact ih others

/-- Along a branch of live states each failure goes back from a state to its parent. -/
private theorem Execution.followed {good : StateId} {rest : List StateId}
    (run : Execution k good rest answers k') (c : Command) (h : k.document.Numbered n)
    (linked : (good :: rest).IsChain fun p x => k.document.parentOf x = some p)
    (live : ∀ x ∈ rest, k.document.isLive x = true) :
    answers.foldl (fun d a => d.track c a) k.document = k'.document ∧ k'.document.Numbered n := by
  induction run with
  | done => exact ⟨rfl, h⟩
  | skip _ _ ih =>
    exact ih h (List.isChain_cons_cons.mp linked).2 (List.forall_mem_cons.mp live).2
  | stop _ location reason =>
    have back := h.rollback_child (List.forall_mem_cons.mp live).1
      (List.isChain_cons_cons.mp linked).1
    exact ⟨Document.track_rollback (c := c) location _ _ reason, back⟩
  | go _ _ ih =>
    have later := ih h (List.isChain_cons_cons.mp linked).2 (List.forall_mem_cons.mp live).2
    rw [List.foldl_cons, Document.track_processed]
    exact later

/-- Whether a command may make the kernel give out a number. -/
def issues : Command → Bool
  | .init => true
  | .add .. => true
  | _ => false

private theorem Outcome.followed (outcome : Outcome k site c answers k' site')
    (h : k.document.Numbered n)
    (left : issues c = true → n < StateId.greatest.toNat) :
    Followed c (n + (issues c).toNat) k.document (answers, k', site') := by
  suffices told : answers.foldl (fun d a => d.track c a) k.document = k'.document ∧
      k'.document.Numbered (n + (issues c).toNat) from ⟨outcome.transparent, told.1, told.2⟩
  have kept : k.document.Numbered (n + (issues c).toNat) := h.mono (Nat.le_add_right _ _)
  cases outcome with
  | refused _ reason => exact ⟨Document.track_refusal (c := c) reason, kept⟩
  | shown _ shows _ =>
    refine ⟨foldl_track_unchanged fun a mem => ?_, kept⟩
    cases shows a mem with
    | goals state goals => exact Document.track_goalInfo state goals
    | note state route level fields => exact Document.track_feedback state route level _
  | rooted => exact ⟨k.document.reset_issue, h.init⟩
  | @added editAt parent p text verbose resolved =>
    have inserted := Document.insert_issue (h.fresh (left rfl)) resolved text
    have numbered := h.add (left rfl) editAt parent text
    rw [Document.add_eq resolved] at numbered
    have told : k.document.track (.add editAt parent text verbose)
        (.added k.document.issue.1 (some (Span.ofText text))) =
        (k.document.cut editAt).issue.2.attach k.document.issue.1 p text :=
      congrArg Prod.snd inserted
    refine ⟨?_, numbered⟩
    rw [List.foldl_cons, told]
    split <;> simp
  | @removed id tip live notRoot done =>
    have numbered := h.cancel id
    rw [done] at numbered
    exact ⟨congrArg Prod.snd done, numbered⟩
  | executed path run =>
    obtain ⟨linked, live, -⟩ := h.path path
    exact run.followed _ h linked fun x mem => live x (List.mem_cons_of_mem _ mem)
  | refreshed => exact ⟨rfl, h⟩

theorem followed_serve (h : k.document.Numbered n)
    (left : issues c = true → n < StateId.greatest.toNat) (site : Site) :
    Followed c (n + (issues c).toNat) k.document (k.serve site c) :=
  (outcome_serve h.anchored site c).followed h left

end SimulatedKernel

end ProofHost
