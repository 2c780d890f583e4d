import Mathlib.Data.List.Chain
import ProofHost.Proofs.Document.Subtree

/-!
The live states of a document form a tree. Its root is live and has no parent, and every other live
state is built on a live state of a smaller number; so the path of a live state climbs down from the
root through ever greater numbers.
-/

set_option autoImplicit false

namespace ProofHost

namespace Document

variable {d : Document} {root id x p : StateId} {text : String}

/-- The live states hang together below the root, and numbers grow on the way down. -/
structure Branching (d : Document) (root : StateId) : Prop where
  ascending : Ascending d.entries
  isRoot : d.root = some root
  liveRoot : d.isLive root = true
  topmost : d.parentOf root = none
  parent : ∀ x, d.isLive x = true → x ≠ root →
    ∃ p, d.parentOf x = some p ∧ d.isLive p = true ∧ p < x

/-- The live states hang together below the root, and one of them is the tip. -/
structure Rooted (d : Document) (root : StateId) : Prop extends Branching d root where
  liveTip : ∃ tip, d.tip = some tip ∧ d.isLive tip = true

structure Blank (d : Document) : Prop where
  noRoot : d.root = none
  noTip : d.tip = none
  noEntries : d.entries = []

/-- The states from the root to a given one, each built on the one before it. -/
structure IsBranch (d : Document) (root id : StateId) (branch : List StateId) : Prop where
  starts : branch.head? = some root
  ends : branch.getLast? = some id
  live : ∀ x ∈ branch, d.isLive x = true
  increasing : branch.Pairwise (· < ·)
  linked : branch.IsChain fun p x => d.parentOf x = some p

private theorem isBranch_root (live : d.isLive root = true) : d.IsBranch root root [root] :=
  ⟨rfl, rfl, by simpa using live, List.pairwise_singleton _ _, List.isChain_singleton _⟩

namespace IsBranch

variable {branch : List StateId}

private theorem le_end (h : d.IsBranch root id branch) : ∀ x ∈ branch, x ≤ id := by
  intro x hx
  obtain ⟨front, rfl⟩ := List.getLast?_eq_some_iff.mp h.ends
  rcases List.mem_append.mp hx with hx | hx
  · have less := (List.pairwise_append.mp h.increasing).2.2 x hx id (List.mem_singleton_self id)
    exact UInt64.le_of_lt less
  · have same : x = id := by simpa using hx
    exact same ▸ UInt64.le_refl _

private theorem extend (h : d.IsBranch root p branch) (live : d.isLive x = true)
    (parent : d.parentOf x = some p) (less : p < x) : d.IsBranch root x (branch ++ [x]) where
  starts := by simp [List.head?_append, h.starts]
  ends := by simp
  live := by
    intro y hy
    rcases List.mem_append.mp hy with hy | hy
    · exact h.live y hy
    · have same : y = x := by simpa using hy
      exact same ▸ live
  increasing := by
    refine List.pairwise_append.mpr ⟨h.increasing, List.pairwise_singleton _ _, ?_⟩
    intro y hy z hz
    have same : z = x := by simpa using hz
    have upTo := h.le_end y hy
    subst same
    grind
  linked := by
    refine List.isChain_append.mpr ⟨h.linked, List.isChain_singleton _, ?_⟩
    intro y hy z hz
    have hy : p = y := by simpa [h.ends] using hy
    have hz : x = z := by simpa using hz
    exact hy ▸ hz ▸ parent

end IsBranch

theorem ensureLive_eq (isRoot : d.root = some root) (live : d.isLive x = true) :
    d.ensureLive x = .ok () := by
  simp [ensureLive, isRoot, live]

theorem path_of_climb {up : List StateId} (isRoot : d.root = some root) (live : d.isLive x = true)
    (climbed : d.climb d.entries.length x = some up) : d.path x = .ok up.reverse := by
  simp [Document.path, ensureLive_eq isRoot live, climbed, bind, Except.bind, pure, Except.pure]

theorem path_of_climb_eq_none (isRoot : d.root = some root) (live : d.isLive x = true)
    (endless : d.climb d.entries.length x = none) : d.path x = .error (.endless x) := by
  simp [Document.path, ensureLive_eq isRoot live, endless, bind, Except.bind]

theorem climb_of_le {fuel fuel' : Nat} {up : List StateId} (climbed : d.climb fuel x = some up)
    (le : fuel ≤ fuel') : d.climb fuel' x = some up := by
  induction fuel generalizing fuel' x up with
  | zero =>
    cases parent : d.parentOf x with
    | none => cases fuel' <;> simpa [Document.climb, parent] using climbed
    | some p => simp [Document.climb, parent] at climbed
  | succ fuel ih =>
    obtain ⟨fuel', rfl⟩ := Nat.exists_eq_succ_of_ne_zero (Nat.ne_zero_of_lt le)
    rw [Document.climb] at climbed ⊢
    cases parent : d.parentOf x with
    | none => simpa [parent] using climbed
    | some p =>
      simp only [parent, Option.map_eq_some_iff] at climbed ⊢
      obtain ⟨above, further, rfl⟩ := climbed
      exact ⟨above, ih further (Nat.le_of_succ_le_succ le), rfl⟩

namespace Branching

theorem root_le (h : d.Branching root) (live : d.isLive x = true) : root ≤ x := by
  induction hn : x.toNat using Nat.strongRecOn generalizing x with
  | ind n ih =>
    subst hn
    by_cases same : x = root
    · exact same ▸ UInt64.le_refl _
    · obtain ⟨p, -, livePar, less⟩ := h.parent x live same
      have := ih p.toNat (UInt64.lt_iff_toNat_lt.mp less) livePar rfl
      grind

theorem lt_of_parentOf (h : d.Branching root) (live : d.isLive x = true)
    (parent : d.parentOf x = some p) : p < x := by
  have notRoot : x ≠ root := by
    rintro rfl
    simp [h.topmost] at parent
  obtain ⟨q, hq, -, less⟩ := h.parent x live notRoot
  exact Option.some.inj (parent.symm.trans hq) ▸ less

theorem lt_of_builtOn (h : d.Branching root) (below : d.BuiltOn id x) : id < x := by
  induction below with
  | child live parent => exact h.lt_of_parentOf live parent
  | step _ live parent ih => exact UInt64.lt_trans ih (h.lt_of_parentOf live parent)

theorem grownOn (h : d.Branching root) (below : d.BuiltOn id x) : d.GrownOn id x := by
  induction below with
  | child live parent => exact .child live parent (h.lt_of_parentOf live parent)
  | step _ live parent ih => exact .step ih live parent (h.lt_of_parentOf live parent)

theorem issue (h : d.Branching root) : d.issue.2.Branching root :=
  ⟨h.ascending, h.isRoot, h.liveRoot, h.topmost, h.parent⟩

theorem bump (h : d.Branching root) (id : StateId) : (d.bump id).Branching root :=
  ⟨h.ascending, h.isRoot, h.liveRoot, h.topmost, h.parent⟩

theorem truncate (h : d.Branching root) (live : d.isLive id = true) (ne : id ≠ root) :
    (d.truncate id).Branching root where
  ascending := h.ascending.kill fun x => id ≤ x
  isRoot := h.isRoot
  liveRoot := by
    have := h.root_le live
    exact isLive_truncate.mpr ⟨h.liveRoot, by grind⟩
  topmost := by rw [parentOf_truncate, h.topmost]
  parent := by
    intro x hx notRoot
    obtain ⟨live, less⟩ := isLive_truncate.mp hx
    obtain ⟨p, parent, livePar, below⟩ := h.parent x live notRoot
    refine ⟨p, by rw [parentOf_truncate, parent], ?_, below⟩
    exact isLive_truncate.mpr ⟨livePar, UInt64.lt_trans below less⟩

theorem prune (h : d.Branching root) (ne : id ≠ root) : (d.prune id).Branching root where
  ascending := h.ascending.kill _
  isRoot := h.isRoot
  liveRoot := by
    refine isLive_prune.mpr ⟨h.liveRoot, fun hmem => ?_⟩
    rcases eq_or_builtOn_of_mem_subtree h.ascending hmem with same | below
    · exact ne same.symm
    · cases below with
      | child _ parent => simp [h.topmost] at parent
      | step _ _ parent => simp [h.topmost] at parent
  topmost := by rw [parentOf_prune, h.topmost]
  parent := by
    intro x hx notRoot
    obtain ⟨live, stays⟩ := isLive_prune.mp hx
    obtain ⟨p, parent, livePar, below⟩ := h.parent x live notRoot
    refine ⟨p, by rw [parentOf_prune, parent], ?_, below⟩
    refine isLive_prune.mpr ⟨livePar, fun hp => stays ?_⟩
    exact mem_subtree_of_parent h.ascending live parent below hp

/-- A live state can be given a child under a new number that is greater than its own. -/
theorem attach_above (h : d.Branching root) (live : d.isLive p = true)
    (fresh : d.wasIssued id = false) (less : p < id) (text : String) :
    (d.attach id p text).Rooted root := by
  have ne {x : StateId} (live : d.isLive x = true) : x ≠ id := by
    rintro rfl
    simp [wasIssued_of_isLive live] at fresh
  refine ⟨⟨h.ascending.record _, h.isRoot, ?_, ?_, ?_⟩, id, rfl, isLive_attach.mpr (Or.inl rfl)⟩
  · exact isLive_attach.mpr (Or.inr h.liveRoot)
  · rw [parentOf_attach, if_neg (ne h.liveRoot), h.topmost]
  · intro x hx notRoot
    rcases isLive_attach.mp hx with rfl | hx
    · exact ⟨p, by rw [parentOf_attach, if_pos rfl], isLive_attach.mpr (Or.inr live), less⟩
    · obtain ⟨q, parent, livePar, below⟩ := h.parent x hx notRoot
      refine ⟨q, by rw [parentOf_attach, if_neg (ne hx), parent], ?_, below⟩
      exact isLive_attach.mpr (Or.inr livePar)

/-- A live state can be given a child whose number is greater than all others. -/
theorem attach (h : d.Branching root) (live : d.isLive p = true)
    (above : ∀ e ∈ d.entries, e.id < id) (text : String) :
    (d.attach id p text).Rooted root := by
  obtain ⟨e, hmem, rfl⟩ := exists_mem_of_wasIssued (wasIssued_of_isLive live)
  exact h.attach_above live (wasIssued_of_above above) (above e hmem) text

def rank (d : Document) (id : StateId) : Nat := (d.entries.filter fun e => e.id < id).length

private theorem rank_lt_rank (wasIssued : d.wasIssued p = true) (less : p < x) :
    rank d p < rank d x := by
  obtain ⟨e, hmem, rfl⟩ := exists_mem_of_wasIssued wasIssued
  have sub : (d.entries.filter fun e' => e'.id < e.id).Sublist
      (d.entries.filter fun e => e.id < x) := by
    refine List.monotone_filter_right _ ?_
    intro e' h
    have : e'.id < e.id := by simpa using h
    simpa using UInt64.lt_trans this less
  refine Nat.lt_of_le_of_ne sub.length_le fun same => ?_
  have hx : e ∈ d.entries.filter fun e => e.id < x := List.mem_filter.mpr ⟨hmem, by simpa using less⟩
  rw [← sub.eq_of_length same] at hx
  exact absurd (by simpa using (List.mem_filter.mp hx).2) (UInt64.lt_irrefl e.id)

theorem rank_le_length (d : Document) (id : StateId) : rank d id ≤ d.entries.length :=
  List.length_filter_le _ _

theorem climb (h : d.Branching root) (fuel : Nat) (live : d.isLive x = true)
    (enough : rank d x ≤ fuel) :
    ∃ up, d.climb fuel x = some up ∧ d.IsBranch root x up.reverse := by
  induction fuel generalizing x with
  | zero =>
    by_cases same : x = root
    · subst same
      exact ⟨[x], by simp [Document.climb, h.topmost], isBranch_root live⟩
    · obtain ⟨p, -, livePar, less⟩ := h.parent x live same
      have := rank_lt_rank (wasIssued_of_isLive livePar) less
      omega
  | succ fuel ih =>
    by_cases same : x = root
    · subst same
      exact ⟨[x], by simp [Document.climb, h.topmost], isBranch_root live⟩
    · obtain ⟨p, parent, livePar, less⟩ := h.parent x live same
      have rank_lt := rank_lt_rank (wasIssued_of_isLive livePar) less
      obtain ⟨up, climbed, above⟩ := ih livePar (by omega)
      refine ⟨x :: up, by simp [Document.climb, parent, climbed], ?_⟩
      rw [List.reverse_cons]
      exact above.extend live parent less

theorem path (h : d.Branching root) (live : d.isLive x = true) :
    ∃ branch, d.path x = .ok branch ∧ d.IsBranch root x branch := by
  obtain ⟨up, climbed, isBranch⟩ := h.climb _ live (rank_le_length d x)
  exact ⟨up.reverse, path_of_climb h.isRoot live climbed, isBranch⟩

end Branching

end Document

end ProofHost
