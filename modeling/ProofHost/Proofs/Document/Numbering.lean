import ProofHost.Proofs.Document.Edit

/-!
A document that gives out all numbers itself counts them: after so many new states no recorded
number is greater than their count. Until the numbers are used up, a second document that is told
of each new number can follow the first one.
-/

set_option autoImplicit false

namespace ProofHost

private theorem StateId.toNat_following_le (id : StateId) :
    (StateId.following id).toNat ≤ id.toNat + 1 := by
  unfold StateId.following
  split
  · exact Nat.le_succ _
  · rw [UInt64.toNat_add]
    exact Nat.mod_le _ _

namespace Document

variable {d : Document} {n m : Nat} {id p good bad : StateId} {editAt parent : Option StateId}

/-- A document in order whose recorded numbers, and the one before the counter, are at most the
given one. -/
structure Numbered (n : Nat) (d : Document) : Prop where
  blank_or_rooted : d.Blank ∨ ∃ root, d.Rooted root
  counted : d.Counted
  recorded : ∀ e ∈ d.entries, e.id.toNat ≤ n
  ahead : d.next.toNat ≤ n + 1

namespace Numbered

theorem new : Document.new.Numbered 0 :=
  ⟨Or.inl ⟨rfl, rfl, rfl⟩, List.forall_mem_nil _, List.forall_mem_nil _, by decide⟩

theorem mono (h : d.Numbered n) (le : n ≤ m) : d.Numbered m :=
  ⟨h.blank_or_rooted, h.counted, fun e hmem => Nat.le_trans (h.recorded e hmem) le,
    Nat.le_trans h.ahead (Nat.succ_le_succ le)⟩

private theorem ascending (h : d.Numbered n) : Ascending d.entries := by
  rcases h.blank_or_rooted with blank | ⟨root, rooted⟩
  · rw [blank.noEntries]
    exact List.Pairwise.nil
  · exact rooted.ascending

theorem rooted_of_isLive (h : d.Numbered n) (live : d.isLive id = true) :
    ∃ root, d.Rooted root := by
  rcases h.blank_or_rooted with blank | rooted
  · obtain ⟨e, found, -⟩ := isLive_iff.mp live
    have := (mem_of_find? found).1
    simp [blank.noEntries] at this
  · exact rooted

private theorem recorded_succ (h : d.Numbered n) : ∀ e ∈ d.entries, e.id.toNat ≤ n + 1 :=
  fun e hmem => Nat.le_succ_of_le (h.recorded e hmem)

private theorem toNat_issue_le (h : d.Numbered n) : d.issue.1.toNat ≤ n + 1 := by
  have := h.ahead
  simp only [Document.issue]
  split
  · exact Nat.succ_le_succ (Nat.zero_le n)
  · exact this

private theorem toNat_next_issue_le (h : d.Numbered n) : d.issue.2.next.toNat ≤ n + 2 :=
  Nat.le_trans (StateId.toNat_following_le d.issue.1) (Nat.succ_le_succ h.toNat_issue_le)

theorem fresh (h : d.Numbered n) (left : n < StateId.greatest.toNat) :
    ∀ e ∈ d.entries, e.id < d.issue.1 := by
  refine h.counted.lt_issue fun e hmem => UInt64.lt_iff_toNat_lt.mpr ?_
  exact Nat.lt_of_le_of_lt (h.recorded e hmem) left

end Numbered

private theorem bump_issue (d : Document) : d.bump d.issue.1 = d.issue.2 := by
  have ahead := next_le_issue d
  have passed := le_following d.issue.1
  have next : (d.bump d.issue.1).next = d.issue.2.next := by
    have reached : d.issue.2.next = StateId.following d.issue.1 := rfl
    simp only [bump, reached]
    split <;> grind
  calc d.bump d.issue.1 = { d with next := (d.bump d.issue.1).next } := rfl
    _ = { d with next := d.issue.2.next } := by rw [next]
    _ = d.issue.2 := rfl

theorem reset_issue (d : Document) : d.reset d.issue.1 = d.init.2 := by
  have again : d.issue.2.bump d.issue.1 = d.issue.2 := by
    simp [bump, issue]
  have told := bump_issue d
  simp only [init, reset, again, told]

theorem insert_issue (fresh : ∀ e ∈ d.entries, e.id < d.issue.1)
    (resolved : d.resolveParent editAt parent = .ok p) (text : String) :
    d.insert d.issue.1 editAt parent text =
      (.ok (), (d.cut editAt).issue.2.attach d.issue.1 p text) := by
  have unused : d.wasIssued d.issue.1 = false := wasIssued_of_above fresh
  have told : (d.cut editAt).bump d.issue.1 = (d.cut editAt).issue.2 := by
    rw [← issue_cut d editAt, bump_issue]
  simp [insert, unused, resolved, told]

namespace Numbered

theorem init (h : d.Numbered n) : d.init.2.Numbered (n + 1) where
  blank_or_rooted := Or.inr ⟨_, rooted_init h.ascending⟩
  counted := h.counted.issue.reset _
  recorded := by
    have killed : ∀ e ∈ kill (fun _ => true) d.entries, e.id.toNat ≤ n + 1 :=
      forall_mem_kill (P := fun id => id.toNat ≤ n + 1) h.recorded_succ
    exact forall_mem_record (P := fun id => id.toNat ≤ n + 1) killed h.toNat_issue_le
  ahead := by
    rw [← reset_issue]
    have told : (d.reset d.issue.1).next = d.issue.2.next := by rw [← bump_issue]; rfl
    exact told ▸ h.toNat_next_issue_le

theorem add (h : d.Numbered n) (left : n < StateId.greatest.toNat)
    (editAt parent : Option StateId) (text : String) :
    (d.add editAt parent text).2.Numbered (n + 1) := by
  rcases add_cases d editAt parent text with ⟨e, refused⟩ | ⟨p, resolved, done⟩
  · rw [refused]
    exact h.mono (Nat.le_succ n)
  · obtain ⟨root, rooted⟩ := h.rooted_of_isLive (isLive_of_resolveParent resolved).2.1
    refine ⟨Or.inr ⟨root, rooted.add (h.fresh left) editAt parent text⟩,
      h.counted.add editAt parent text, ?_, ?_⟩
    · rw [done]
      have kept : ∀ e ∈ (d.cut editAt).entries, e.id.toNat ≤ n + 1 :=
        forall_mem_cut (P := fun id => id.toNat ≤ n + 1) h.recorded_succ
      exact forall_mem_record (P := fun id => id.toNat ≤ n + 1) kept h.toNat_issue_le
    · rw [done]
      have same : (d.cut editAt).issue.2.next = d.issue.2.next := by simp [issue]
      exact same ▸ h.toNat_next_issue_le

theorem cancel (h : d.Numbered n) (id : StateId) : (d.cancel id).2.Numbered n := by
  rcases cancel_cases d id with ⟨e, refused⟩ | ⟨-, live, -, done⟩
  · rw [refused]
    exact h
  · refine ⟨?_, h.counted.cancel id, ?_, ?_⟩
    · obtain ⟨root, rooted⟩ := h.rooted_of_isLive live
      exact Or.inr ⟨root, rooted.cancel id⟩
    · rw [done]
      exact forall_mem_kill (P := fun id => id.toNat ≤ n) h.recorded
    · rw [done]
      exact h.ahead

theorem rollback (h : d.Numbered n) (ne : good ≠ bad) (apart : ¬ d.BuiltOn bad good) :
    (d.rollback good bad).2.Numbered n := by
  have counted := h.counted.rollback good bad
  rcases rollback_cases d good bad with ⟨e, refused⟩ | ⟨-, live, -⟩
  · rw [refused]
    exact h
  obtain ⟨root, rooted⟩ := h.rooted_of_isLive live
  obtain ⟨dead, tip, done⟩ := rollback_eq_killed d good bad
  refine ⟨Or.inr ⟨root, rooted.rollback ne apart⟩, counted, ?_, by rw [done]; exact h.ahead⟩
  rw [done]
  exact forall_mem_kill (P := fun id => id.toNat ≤ n) h.recorded

end Numbered

end Document

end ProofHost
