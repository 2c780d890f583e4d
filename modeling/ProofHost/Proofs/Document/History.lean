import ProofHost.Proofs.Document.Edit

/-!
Documents after any edits at all, in any order and with any numbers from elsewhere. The counter of
such a document is never behind a recorded number, but it stops at the greatest one: from then on a
number that is given out is not new.
-/

set_option autoImplicit false

namespace ProofHost

namespace Document

variable {d : Document} {allowed wider : Document → Edit → Prop}

/-- The documents that edits lead to, where each edit is allowed in the document that it meets. -/
inductive EditedBy (allowed : Document → Edit → Prop) : Document → Prop
  | new : EditedBy allowed .new
  | blank : EditedBy allowed .blank
  | edit {d : Document} (edited : EditedBy allowed d) (e : Edit) (permit : allowed d e) :
    EditedBy allowed (d.edit e)

def Edited : Document → Prop := EditedBy fun _ _ => True

theorem EditedBy.to {d' : Document} (edited : EditedBy allowed d) (e : Edit) (permit : allowed d e)
    (result : d.edit e = d') : EditedBy allowed d' := by
  subst result
  exact .edit edited e permit

theorem EditedBy.mono (edited : EditedBy allowed d) (weaken : ∀ d e, allowed d e → wider d e) :
    EditedBy wider d := by
  induction edited with
  | new => exact .new
  | blank => exact .blank
  | edit _ e permit ih => exact .edit ih e (weaken _ e permit)

private theorem Ascending.cut (sorted : Ascending d.entries) (editAt : Option StateId) :
    Ascending (d.cut editAt).entries := by
  cases editAt with
  | none => exact sorted
  | some start => exact sorted.kill fun x => start ≤ x

private theorem Ascending.edit (sorted : Ascending d.entries) (e : Edit) :
    Ascending (d.edit e).entries := by
  cases e with
  | init => exact (rooted_init sorted).ascending
  | reset id => exact (rooted_reset sorted id).ascending
  | add editAt parent text =>
    rcases add_cases d editAt parent text with ⟨e, refused⟩ | ⟨p, -, done⟩
    · rw [Document.edit, refused]
      exact sorted
    · rw [Document.edit, done]
      exact (sorted.cut editAt).record _
  | insert id editAt parent text =>
    rcases insert_cases d id editAt parent text with ⟨e, refused⟩ | ⟨p, -, -, done⟩
    · rw [Document.edit, refused]
      exact sorted
    · rw [Document.edit, done]
      exact (sorted.cut editAt).record _
  | cancel id =>
    rcases cancel_cases d id with ⟨e, refused⟩ | ⟨-, -, -, done⟩
    · rw [Document.edit, refused]
      exact sorted
    · rw [Document.edit, done]
      exact sorted.kill _
  | rollback good bad =>
    obtain ⟨dead, tip, done⟩ := rollback_eq_killed d good bad
    rw [Document.edit, done]
    exact sorted.kill dead

theorem EditedBy.ascending (edited : EditedBy allowed d) : Ascending d.entries := by
  induction edited with
  | new => exact List.Pairwise.nil
  | blank => exact List.Pairwise.nil
  | edit _ e _ ih => exact ih.edit e

theorem EditedBy.counted (edited : EditedBy allowed d) : d.Counted := by
  induction edited with
  | new => exact List.forall_mem_nil _
  | blank => exact List.forall_mem_nil _
  | edit _ e _ ih => exact ih.edit e

private theorem Counted.wasIssued_issue (counted : d.Counted)
    (free : d.wasIssued StateId.greatest = false) : d.wasIssued d.issue.1 = false := by
  refine wasIssued_of_above (counted.lt_issue ?_)
  intro e hmem
  have recorded : d.wasIssued e.id = true := wasIssued_of_mem hmem
  have ne : e.id ≠ StateId.greatest := by
    intro same
    rw [same, free] at recorded
    cases recorded
  have le := le_greatest e.id
  grind

private theorem Counted.issue_eq_greatest (counted : d.Counted)
    (taken : d.wasIssued StateId.greatest = true) : d.issue.1 = StateId.greatest := by
  obtain ⟨e, hmem, same⟩ := exists_mem_of_wasIssued taken
  have passed : StateId.following e.id ≤ d.next := counted e hmem
  rw [same, following_greatest] at passed
  have ahead : d.next ≤ d.issue.1 := next_le_issue d
  have le := le_greatest d.issue.1
  grind

private theorem Counted.wasIssued_issue_iff (counted : d.Counted) :
    d.wasIssued d.issue.1 = true ↔ d.wasIssued StateId.greatest = true := by
  cases taken : d.wasIssued StateId.greatest with
  | false => simp [counted.wasIssued_issue taken]
  | true => simp [counted.issue_eq_greatest taken, taken]

/--
A number that a document gives out, to a new root or to a sentence, was issued before exactly if the
greatest number was: a document that has the greatest number has no new ones.
-/
theorem wasIssued_given_out_iff (edited : Edited d) :
    (d.wasIssued d.init.1 = true ↔ d.wasIssued StateId.greatest = true) ∧
    ∀ editAt parent text id, (d.add editAt parent text).1 = .ok id →
      (d.wasIssued id = true ↔ d.wasIssued StateId.greatest = true) := by
  have next := (EditedBy.counted edited).wasIssued_issue_iff
  refine ⟨next, ?_⟩
  intro editAt parent text id given
  rcases add_cases d editAt parent text with ⟨e, refused⟩ | ⟨p, -, done⟩
  · rw [refused] at given
    cases given
  · rw [done] at given
    cases given
    exact next

def full : Document :=
  ⟨[⟨1, none, "", true⟩, ⟨StateId.greatest, some 1, "a.", true⟩], some 1, some StateId.greatest,
    StateId.greatest⟩

theorem edited_full : Edited full := by
  have rooted : Edited ⟨[⟨1, none, "", true⟩], some 1, some 1, 2⟩ :=
    EditedBy.new.to (.reset 1) trivial (by decide)
  exact rooted.to (.insert StateId.greatest none none "a.") trivial (by decide)

theorem wasIssued_given_out_iff_full :
    (full.add none none "b.").1 = .ok StateId.greatest ∧
      full.wasIssued StateId.greatest = true := by
  have given : (full.add none none "b.").1 = .ok StateId.greatest := by decide
  have taken : full.wasIssued StateId.greatest = true := by decide
  exact ⟨given, ((wasIssued_given_out_iff edited_full).2 none none "b." _ given).mpr taken⟩

/-- With that number the new sentence takes the place of the second state and is built on itself. -/
theorem greatest_number_given_out_again :
    Edited full ∧ full.wasIssued StateId.greatest = true ∧
      (full.add none none "b.").1 = .ok StateId.greatest ∧
      (full.add none none "b.").2.parentOf StateId.greatest = some StateId.greatest ∧
      (full.add none none "b.").2.textOf StateId.greatest = some "b." := by
  refine ⟨edited_full, ?_, ?_, ?_, ?_⟩ <;> decide

end Document

end ProofHost
