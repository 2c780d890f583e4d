import ProofHost.Proofs.Document.Lineage

/-!
Where parents lead in a document that gives out all its numbers itself. A parent is smaller than
what is put on it, as long as the counter moves on; once the counter stops, the greatest number is
given out again and can come to be its own parent. So every other way up comes to an end.
-/

set_option autoImplicit false

namespace ProofHost

/-- The edits that take no number from elsewhere. -/
def Edit.isOwn : Edit → Bool
  | reset _ => false
  | insert .. => false
  | _ => true

namespace Document

variable {d : Document} {root p x : StateId}

def Descending (d : Document) : Prop :=
  ∀ x p, d.parentOf x = some p → p < x ∨ x = StateId.greatest

private theorem Counted.lt_issue_or_eq (counted : d.Counted) (recorded : d.wasIssued p = true) :
    p < d.issue.1 ∨ d.issue.1 = StateId.greatest := by
  obtain ⟨e, mem, rfl⟩ := exists_mem_of_wasIssued recorded
  have passed : StateId.following e.id ≤ d.issue.1 :=
    UInt64.le_trans (counted e mem) (next_le_issue d)
  have le := le_greatest d.issue.1
  by_cases last : e.id = StateId.greatest
  · rw [last, following_greatest] at passed
    exact Or.inr (UInt64.le_antisymm le passed)
  · have less : e.id < StateId.greatest := UInt64.lt_of_le_of_ne (le_greatest e.id) last
    exact Or.inl (UInt64.lt_of_lt_of_le (lt_following less) passed)

private theorem Descending.edit (h : d.Descending) (counted : d.Counted) {e : Edit}
    (own : e.isOwn = true) : (d.edit e).Descending := by
  have same {d' : Document} (parents : ∀ x, d'.parentOf x = d.parentOf x) : d'.Descending :=
    fun x p parent => h x p ((parents x).symm.trans parent)
  cases e with
  | init =>
    intro x p parent
    rw [Document.edit, init, parentOf_reset] at parent
    split at parent
    · cases parent
    · exact h x p parent
  | add editAt parent text =>
    rcases add_cases d editAt parent text with ⟨e, refused⟩ | ⟨q, resolved, done⟩
    · rw [Document.edit, refused]
      exact h
    · intro x p isParent
      rw [Document.edit, done, parentOf_attach] at isParent
      split at isParent
      · rename_i isNew
        obtain rfl := Option.some.inj isParent
        rw [isNew]
        exact counted.lt_issue_or_eq (wasIssued_of_isLive (isLive_of_resolveParent resolved).2.1)
      · exact h x p ((d.parentOf_cut editAt x).symm.trans isParent)
  | cancel id =>
    rcases cancel_cases d id with ⟨e, refused⟩ | ⟨-, -, -, done⟩
    · rw [Document.edit, refused]
      exact h
    · rw [Document.edit, done]
      exact same fun x => parentOf_prune
  | rollback good bad =>
    obtain ⟨dead, tip, done⟩ := rollback_eq_killed d good bad
    rw [Document.edit, done]
    exact same fun x => parentOf_killed
  | reset id => cases own
  | insert id editAt parent text => cases own

theorem EditedBy.descending (edited : EditedBy (fun _ e => e.isOwn = true) d) : d.Descending := by
  induction edited with
  | new => exact nofun
  | blank => exact nofun
  | edit edited e own ih => exact ih.edit edited.counted own

private theorem Climbs.recorded {up : List StateId} (h : d.Climbs x up) :
    ∀ y ∈ up.dropLast, d.wasIssued y = true := by
  induction h with
  | top => exact List.forall_mem_nil _
  | @up p x above parent further ih =>
    have ne : above ≠ [] := by cases further <;> exact List.cons_ne_nil _ _
    rw [List.dropLast_cons_of_ne_nil ne]
    exact List.forall_mem_cons.mpr ⟨wasIssued_of_parentOf parent, ih⟩

private theorem Climbs.length_le {up : List StateId} (h : d.Climbs x up) (once : up.Nodup) :
    up.length ≤ d.entries.length + 1 := by
  have front := length_le_of_recorded (once.sublist (List.dropLast_sublist up)) h.recorded
  rw [List.length_dropLast] at front
  omega

namespace Descending

private theorem lt (h : d.Descending) (parent : d.parentOf x = some p)
    (notOwn : d.parentOf x ≠ some x) : p < x := by
  have ne : p ≠ x := fun same => notOwn (same ▸ parent)
  rcases h x p parent with less | rfl
  · exact less
  · exact UInt64.lt_of_le_of_ne (le_greatest p) ne

private theorem parentOf_ne_self (h : d.Descending) (less : p < x) : d.parentOf p ≠ some p := by
  intro own
  rcases h p p own with less' | rfl
  · exact UInt64.lt_irrefl _ less'
  · exact UInt64.lt_irrefl _ (UInt64.lt_of_lt_of_le less (le_greatest x))

private theorem climbs (h : d.Descending) (notOwn : d.parentOf x ≠ some x) :
    ∃ up, d.Climbs x up ∧ up.Nodup ∧ ∀ y ∈ up, y ≤ x := by
  -- The induction is on the number: a parent is smaller, and so it is not its own parent either.
  induction n : x.toNat using Nat.strong_induction_on generalizing x with
  | _ n ih =>
    cases parent : d.parentOf x with
    | none =>
      exact ⟨[x], .top parent, List.nodup_singleton x,
        List.forall_mem_singleton.mpr (UInt64.le_refl x)⟩
    | some p =>
      have less := h.lt parent notOwn
      obtain ⟨up, climbs, once, below⟩ :=
        ih p.toNat (n ▸ UInt64.lt_iff_toNat_lt.mp less) (h.parentOf_ne_self less) rfl
      have new : x ∉ up := fun mem =>
        UInt64.lt_irrefl _ (UInt64.lt_of_lt_of_le less (below x mem))
      refine ⟨x :: up, .up parent climbs, List.nodup_cons.mpr ⟨new, once⟩, ?_⟩
      exact List.forall_mem_cons.mpr ⟨UInt64.le_refl x, fun y mem =>
        UInt64.le_trans (below y mem) (UInt64.le_of_lt less)⟩

theorem exists_path_iff (h : d.Descending) (isRoot : d.root = some root)
    (live : d.isLive x = true) : (∃ path, d.path x = .ok path) ↔ d.parentOf x ≠ some x := by
  constructor
  · rintro ⟨path, isPath⟩ own
    have endless (fuel : Nat) : d.climb fuel x = none := by
      induction fuel with
      | zero => simp [climb, own]
      | succ fuel ih => simp [climb, own, ih]
    rw [path_of_climb_eq_none isRoot live (endless _)] at isPath
    cases isPath
  · intro notOwn
    obtain ⟨up, climbs, once, -⟩ := h.climbs notOwn
    exact ⟨_, path_of_climb isRoot live (climbs.climb_eq (climbs.length_le once))⟩

end Descending

end Document

end ProofHost
