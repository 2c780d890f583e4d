import ProofHost.Proofs.Document.Continued
import ProofHost.Proofs.Document.Numbering
import ProofHost.Proofs.Document.Removal

/-!
Documents that orderly edits lead to, from whichever start. As every edit keeps what is recorded, it
is enough that the greatest number is not recorded in the end: then it never was, and the live
states are a tree.
-/

set_option autoImplicit false

namespace ProofHost

namespace Document

variable {d : Document} {root good bad x : StateId}

theorem wasIssued_edit (recorded : d.wasIssued x = true) (e : Edit) :
    (d.edit e).wasIssued x = true := by
  have cut (editAt : Option StateId) : (d.cut editAt).wasIssued x = true := by
    rw [wasIssued_cut, recorded]
  cases e with
  | init => exact wasIssued_reset (d := d.issue.2) recorded
  | reset id => exact wasIssued_reset recorded
  | add editAt parent text =>
    rcases add_cases d editAt parent text with ⟨e, refused⟩ | ⟨p, -, done⟩
    · rw [edit, refused]
      exact recorded
    · rw [edit, done]
      exact wasIssued_attach (d := (d.cut editAt).issue.2) (cut editAt)
  | insert id editAt parent text =>
    rcases insert_cases d id editAt parent text with ⟨e, refused⟩ | ⟨p, -, -, done⟩
    · rw [edit, refused]
      exact recorded
    · rw [edit, done]
      exact wasIssued_attach (d := (d.cut editAt).bump id) (cut editAt)
  | cancel id =>
    rcases cancel_cases d id with ⟨e, refused⟩ | ⟨-, -, -, done⟩
    · rw [edit, refused]
      exact recorded
    · rw [edit, done]
      exact wasIssued_killed.trans recorded
  | rollback good bad =>
    obtain ⟨dead, tip, done⟩ := rollback_eq_killed d good bad
    rw [edit, done]
    exact wasIssued_killed.trans recorded

private theorem forall_mem_of_edit {P : StateId → Prop} {e : Edit}
    (h : ∀ entry ∈ (d.edit e).entries, P entry.id) : ∀ entry ∈ d.entries, P entry.id := by
  intro entry mem
  obtain ⟨later, mem', same⟩ :=
    exists_mem_of_wasIssued (wasIssued_edit (wasIssued_of_mem mem) e)
  exact same ▸ h later mem'

theorem EditedBy.blank_or_tree (edited : EditedBy Orderly d)
    (bounded : ∀ e ∈ d.entries, e.id < StateId.greatest) : d.Blank ∨ ∃ root, d.Rooted root := by
  induction edited with
  | new => exact Or.inl ⟨rfl, rfl, rfl⟩
  | blank => exact Or.inl ⟨rfl, rfl, rfl⟩
  | edit edited e orderly ih =>
    have before := forall_mem_of_edit (P := (· < StateId.greatest)) bounded
    rcases ih before with blank | ⟨root, rooted⟩
    · rcases blank.edit e with same | rooted
      · exact Or.inl (same.symm ▸ blank)
      · exact Or.inr rooted
    · exact Or.inr (rooted.edit edited.counted before orderly)

theorem EditedBy.numbered (edited : EditedBy Orderly d)
    (bounded : ∀ e ∈ d.entries, e.id < StateId.greatest) : d.Numbered StateId.greatest.toNat where
  blank_or_rooted := edited.blank_or_tree bounded
  counted := edited.counted
  recorded e _ := UInt64.le_iff_toNat_le.mp (le_greatest e.id)
  ahead := Nat.le_succ_of_le (UInt64.le_iff_toNat_le.mp (le_greatest d.next))

theorem Branching.orderly_rollback (h : d.Branching root)
    (live : d.isLive bad = true) (parent : d.parentOf bad = some good) :
    d.Orderly (.rollback good bad) := by
  have less := h.lt_of_parentOf live parent
  refine ⟨UInt64.ne_of_lt less, fun below => ?_⟩
  exact UInt64.lt_irrefl _ (UInt64.lt_trans less (h.lt_of_builtOn below))

end Document

end ProofHost
