import ProofHost.Proofs.Document.Removal

/-!
An operation that is refused leaves the document as it is. A removal could only fail after it has
begun if no state were left for the tip to go back to. In a document that edits lead to there always
is one: a document with a root has a tip, and of the live states only the root stands on nothing.
-/

set_option autoImplicit false

namespace ProofHost

namespace Document

variable {d : Document} {id p x : StateId} {editAt : Option StateId} {text : String}

/-- A document with a root has a tip, and no live state but the root has no parent. -/
structure Anchored (d : Document) : Prop where
  tip : d.root.isSome = true → d.tip.isSome = true
  parentless : ∀ x, d.isLive x = true → d.parentOf x = none → d.root = some x

theorem parentOf_cut (d : Document) (editAt : Option StateId) (x : StateId) :
    (d.cut editAt).parentOf x = d.parentOf x := by
  cases editAt with
  | none => rfl
  | some start => exact parentOf_truncate

theorem isLive_of_cut (live : (d.cut editAt).isLive x = true) : d.isLive x = true := by
  cases editAt with
  | none => exact live
  | some start => exact (isLive_truncate.mp live).1

theorem anchored_reset (d : Document) (id : StateId) : (d.reset id).Anchored where
  tip _ := rfl
  parentless x live _ := by rw [isLive_reset.mp live]; rfl

namespace Anchored

theorem new : Document.new.Anchored := ⟨nofun, nofun⟩

private theorem attach (h : ∀ x, d.isLive x = true → d.parentOf x = none → d.root = some x)
    (id p : StateId) (text : String) : (d.attach id p text).Anchored where
  tip _ := rfl
  parentless x live noParent := by
    rw [parentOf_attach] at noParent
    rcases isLive_attach.mp live with rfl | live
    · simp at noParent
    · split at noParent
      · cases noParent
      · exact h x live noParent

private theorem cut (h : d.Anchored) (editAt : Option StateId) :
    ∀ x, (d.cut editAt).isLive x = true → (d.cut editAt).parentOf x = none →
      (d.cut editAt).root = some x := by
  intro x live noParent
  rw [parentOf_cut] at noParent
  rw [root_cut]
  exact h.parentless x (isLive_of_cut live) noParent

/-- The tip of a document from which a state is removed stays or goes back to a parent. -/
theorem prune (h : d.Anchored) (live : d.isLive id = true) (notRoot : d.root ≠ some id) :
    (d.prune id).Anchored where
  tip rooted := by
    obtain ⟨tip, isTip⟩ := Option.isSome_iff_exists.mp (h.tip rooted)
    have hasParent : (d.parentOf id).isSome = true := by
      cases parent : d.parentOf id with
      | none => exact absurd (h.parentless id live parent) notRoot
      | some p => rfl
    simp only [Document.prune, isTip, Option.bind_some]
    split
    · exact hasParent
    · rfl
  parentless x live noParent := by
    rw [parentOf_prune] at noParent
    exact h.parentless x (isLive_prune.mp live).1 noParent

private theorem moveTip (h : d.Anchored) (good : StateId) :
    ({ d with tip := some good } : Document).Anchored :=
  ⟨fun _ => rfl, h.parentless⟩

/-- To cancel a state is refused and changes nothing, or it removes the state and gives the tip. -/
theorem cancel_cases (h : d.Anchored) (id : StateId) :
    (∃ e, d.cancel id = (.error e, d)) ∨
      ∃ tip, d.isLive id = true ∧ d.root ≠ some id ∧ d.cancel id = (.ok tip, d.prune id) := by
  rcases Document.cancel_cases d id with refused | ⟨rooted, live, notRoot, done⟩
  · exact Or.inl refused
  · obtain ⟨tip, isTip⟩ := Option.isSome_iff_exists.mp ((h.prune live notRoot).tip rooted)
    rw [isTip] at done
    exact Or.inr ⟨tip, live, notRoot, done⟩

theorem edit (h : d.Anchored) (e : Edit) : (d.edit e).Anchored := by
  cases e with
  | init => exact anchored_reset _ _
  | reset id => exact anchored_reset d id
  | add editAt parent text =>
    rcases add_cases d editAt parent text with ⟨e, refused⟩ | ⟨p, -, done⟩
    · rw [Document.edit, refused]
      exact h
    · rw [Document.edit, done]
      exact attach (d := (d.cut editAt).issue.2) (h.cut editAt) _ p text
  | insert id editAt parent text =>
    rcases insert_cases d id editAt parent text with ⟨e, refused⟩ | ⟨p, -, -, done⟩
    · rw [Document.edit, refused]
      exact h
    · rw [Document.edit, done]
      exact attach (d := (d.cut editAt).bump id) (h.cut editAt) id p text
  | cancel id =>
    rcases h.cancel_cases id with ⟨e, refused⟩ | ⟨tip, live, notRoot, done⟩
    · rw [Document.edit, refused]
      exact h
    · rw [Document.edit, done]
      exact h.prune live notRoot
  | rollback good bad =>
    rw [Document.edit]
    rcases rollback_cases d good bad with
      ⟨e, refused⟩ | ⟨-, -, ⟨-, moved⟩ | ⟨live, notRoot, removed⟩⟩
    · rw [refused]
      exact h
    · rw [moved]
      exact h.moveTip good
    · have pruned := h.prune live notRoot
      rw [removed]
      cases (d.prune bad).tip with
      | none => exact pruned
      | some tip => exact pruned.moveTip good

/-- To go back is refused and changes nothing, or it succeeds: the removal in it does not fail. -/
private theorem rollback_cases (h : d.Anchored) (good bad : StateId) :
    (∃ e, d.rollback good bad = (.error e, d)) ∨ (d.rollback good bad).1 = .ok () := by
  rcases Document.rollback_cases d good bad with
    refused | ⟨rooted, -, ⟨-, moved⟩ | ⟨live, notRoot, removed⟩⟩
  · exact Or.inl refused
  · right
    rw [moved]
  · right
    have hasTip := (h.prune live notRoot).tip rooted
    obtain ⟨tip, isTip⟩ := Option.isSome_iff_exists.mp hasTip
    rw [removed, isTip]
    rfl

end Anchored

private theorem EditedBy.anchored {allowed : Document → Edit → Prop} (edited : EditedBy allowed d) :
    d.Anchored := by
  induction edited with
  | new => exact Anchored.new
  | blank => exact ⟨nofun, nofun⟩
  | edit _ e _ ih => exact ih.edit e

/-- In a document that any edits at all lead to, an operation that gives an error leaves the whole
document as it was: the entries, the root, the tip and the counter. -/
theorem refused_operation_changes_nothing (edited : Edited d) :
    (∀ editAt parent text e, (d.add editAt parent text).1 = .error e →
      (d.add editAt parent text).2 = d) ∧
    (∀ id editAt parent text e, (d.insert id editAt parent text).1 = .error e →
      (d.insert id editAt parent text).2 = d) ∧
    (∀ id e, (d.cancel id).1 = .error e → (d.cancel id).2 = d) ∧
    ∀ good bad e, (d.rollback good bad).1 = .error e → (d.rollback good bad).2 = d := by
  have anchored : d.Anchored := EditedBy.anchored edited
  refine ⟨?_, ?_, ?_, ?_⟩
  · intro editAt parent text e failed
    rcases add_cases d editAt parent text with ⟨cause, refused⟩ | ⟨p, -, done⟩
    · rw [refused]
    · rw [done] at failed
      cases failed
  · intro id editAt parent text e failed
    rcases insert_cases d id editAt parent text with ⟨cause, refused⟩ | ⟨p, -, -, done⟩
    · rw [refused]
    · rw [done] at failed
      cases failed
  · intro id e failed
    rcases anchored.cancel_cases id with ⟨cause, refused⟩ | ⟨tip, -, -, done⟩
    · rw [refused]
    · rw [done] at failed
      cases failed
  · intro good bad e failed
    rcases anchored.rollback_cases good bad with ⟨cause, refused⟩ | done
    · rw [refused]
    · rw [done] at failed
      cases failed

/-- A root and a removed state with the greatest number, which stands on itself and is the tip. -/
def worn : Document :=
  ⟨[⟨1, none, "", true⟩, ⟨StateId.greatest, some StateId.greatest, "b.", false⟩], some 1,
    some StateId.greatest, StateId.greatest⟩

theorem refused_operation_changes_nothing_worn :
    Edited worn ∧ (worn.add none none "c.").1 = .error (.notLive StateId.greatest) ∧
      (worn.add none none "c.").2 = worn := by
  have overwritten : Edited
      ⟨[⟨1, none, "", true⟩, ⟨StateId.greatest, some StateId.greatest, "b.", true⟩], some 1,
        some StateId.greatest, StateId.greatest⟩ :=
    edited_full.to (.add none none "b.") trivial (by decide)
  have edited : Edited worn := overwritten.to (.cancel StateId.greatest) trivial (by decide)
  have failed : (worn.add none none "c.").1 = .error (.notLive StateId.greatest) := by decide
  exact ⟨edited, failed,
    (refused_operation_changes_nothing edited).1 none none "c." _ failed⟩

end Document

end ProofHost
