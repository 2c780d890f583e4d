import ProofHost.Proofs.Document.Entries

/-!
The states built on a state. The pass that finds them goes through the entries once, upwards, so
that it finds those to which a chain of ever greater numbers leads, and no others. A state that
comes before its parent is missed.
-/

set_option autoImplicit false

namespace ProofHost

namespace Document

variable {d : Document} {id top x p : StateId}

/-- The state is live and built on another one, directly or through other live states. -/
inductive BuiltOn (d : Document) (top : StateId) : StateId → Prop
  | child {x : StateId} (live : d.isLive x = true) (parent : d.parentOf x = some top) :
    BuiltOn d top x
  | step {p x : StateId} (below : BuiltOn d top p) (live : d.isLive x = true)
    (parent : d.parentOf x = some p) : BuiltOn d top x

theorem BuiltOn.isLive (h : d.BuiltOn top x) : d.isLive x = true := by
  cases h with
  | child live parent => exact live
  | step below live parent => exact live

/-- The state is live and built on another one through live states of ever greater numbers. -/
inductive GrownOn (d : Document) (top : StateId) : StateId → Prop
  | child {x : StateId} (live : d.isLive x = true) (parent : d.parentOf x = some top)
    (less : top < x) : GrownOn d top x
  | step {p x : StateId} (below : GrownOn d top p) (live : d.isLive x = true)
    (parent : d.parentOf x = some p) (less : p < x) : GrownOn d top x

theorem GrownOn.builtOn (h : d.GrownOn top x) : d.BuiltOn top x := by
  induction h with
  | child live parent _ => exact .child live parent
  | step _ live parent _ ih => exact .step ih live parent

theorem GrownOn.lt (h : d.GrownOn top x) : top < x := by
  induction h with
  | child _ _ less => exact less
  | step _ _ _ less ih => exact UInt64.lt_trans ih less

/-- One step of the pass: a live entry joins the members if its parent is one of them. -/
def join (members : List StateId) (e : Entry) : List StateId :=
  if e.live && e.parent.any (members.contains ·) then members ++ [e.id] else members

theorem subtree_eq (d : Document) (id : StateId) :
    d.subtree id = (d.entries.filter fun e => id < e.id).foldl join [id] := rfl

private theorem mem_join {members : List StateId} {e : Entry} :
    x ∈ join members e ↔
      x ∈ members ∨ x = e.id ∧ e.live = true ∧ ∃ p ∈ members, e.parent = some p := by
  unfold join
  split
  · rename_i joins
    obtain ⟨live, hasParent⟩ := by simpa only [Bool.and_eq_true] using joins
    obtain ⟨p, parent, member⟩ := (Option.any_eq_true _ _).mp hasParent
    have hmem : p ∈ members := by simpa using member
    simp only [List.mem_append, List.mem_singleton]
    constructor
    · rintro (h | h)
      · exact Or.inl h
      · exact Or.inr ⟨h, live, p, hmem, parent⟩
    · rintro (h | ⟨h, -⟩)
      · exact Or.inl h
      · exact Or.inr h
  · rename_i stays
    constructor
    · exact Or.inl
    · rintro (h | ⟨-, live, p, hmem, parent⟩)
      · exact h
      · exact absurd (by simp [live, parent, hmem]) stays

private theorem mem_foldl_join_of_mem {entries : List Entry} {members : List StateId}
    (h : x ∈ members) : x ∈ entries.foldl join members := by
  induction entries generalizing members with
  | nil => exact h
  | cons e rest ih => exact ih (mem_join.mpr (Or.inl h))

private theorem foldl_join_induction {P : StateId → Prop} {entries : List Entry}
    {members : List StateId} (base : ∀ x ∈ members, P x)
    (step : ∀ e ∈ entries, ∀ p, e.live = true → e.parent = some p → P p → P e.id) :
    ∀ x ∈ entries.foldl join members, P x := by
  induction entries generalizing members with
  | nil => exact base
  | cons e rest ih =>
    refine ih ?_ fun e' hmem => step e' (List.mem_cons_of_mem _ hmem)
    intro x hx
    rcases mem_join.mp hx with hx | ⟨rfl, live, p, hp, parent⟩
    · exact base x hx
    · exact step e List.mem_cons_self p live parent (base p hp)

private theorem mem_or_exists_of_mem_foldl_join {entries : List Entry} {members : List StateId}
    (h : x ∈ entries.foldl join members) : x ∈ members ∨ ∃ e ∈ entries, e.id = x :=
  foldl_join_induction (P := fun x => x ∈ members ∨ ∃ e ∈ entries, e.id = x)
    (fun _ hx => Or.inl hx) (fun e hmem _ _ _ _ => Or.inr ⟨e, hmem, rfl⟩) x h

/-- In ascending entries it is enough that a property passes to children of greater numbers. -/
private theorem foldl_join_induction_ascending {P : StateId → Prop} {entries : List Entry}
    {members : List StateId} (sorted : Ascending entries)
    (before : ∀ x ∈ members, ∀ e ∈ entries, x < e.id) (base : ∀ x ∈ members, P x)
    (step : ∀ e ∈ entries, ∀ p, e.live = true → e.parent = some p → p < e.id → P p → P e.id) :
    ∀ x ∈ entries.foldl join members, P x := by
  induction entries generalizing members with
  | nil => exact base
  | cons e rest ih =>
    obtain ⟨first, sorted⟩ := List.pairwise_cons.mp sorted
    refine ih sorted ?_ ?_ fun e' hmem => step e' (List.mem_cons_of_mem _ hmem)
    · intro x hx e' hmem
      rcases mem_join.mp hx with hx | ⟨rfl, -⟩
      · exact before x hx e' (List.mem_cons_of_mem _ hmem)
      · exact first e' hmem
    · intro x hx
      rcases mem_join.mp hx with hx | ⟨rfl, live, p, hp, parent⟩
      · exact base x hx
      · exact step e List.mem_cons_self p live parent (before p hp e List.mem_cons_self) (base p hp)

private theorem mem_foldl_join_of_parent {entries : List Entry} {members : List StateId}
    (sorted : Ascending entries) {e : Entry} (hmem : e ∈ entries) (live : e.live = true)
    (parent : e.parent = some p) (less : p < e.id) (hp : p ∈ entries.foldl join members) :
    e.id ∈ entries.foldl join members := by
  induction entries generalizing members with
  | nil => simp at hmem
  | cons first rest ih =>
    obtain ⟨hfirst, hrest⟩ := List.pairwise_cons.mp sorted
    rw [List.foldl_cons] at hp ⊢
    rcases List.mem_cons.mp hmem with rfl | hmem
    · refine mem_foldl_join_of_mem (mem_join.mpr (Or.inr ⟨rfl, live, p, ?_, parent⟩))
      -- Whatever joins from here on has at least the number of this entry.
      rcases mem_or_exists_of_mem_foldl_join hp with hp | ⟨e', hmem, rfl⟩
      · rcases mem_join.mp hp with hp | ⟨rfl, -⟩
        · exact hp
        · exact absurd less (UInt64.lt_irrefl _)
      · exact absurd (UInt64.lt_trans less (hfirst e' hmem)) (UInt64.lt_irrefl _)
    · exact ih hrest hmem hp

theorem mem_subtree_self (d : Document) (id : StateId) : id ∈ d.subtree id := by
  rw [subtree_eq]
  exact mem_foldl_join_of_mem List.mem_cons_self

theorem le_of_mem_subtree (h : x ∈ d.subtree id) : id ≤ x := by
  rw [subtree_eq] at h
  rcases mem_or_exists_of_mem_foldl_join h with h | ⟨e, hmem, rfl⟩
  · have same : x = id := by simpa using h
    exact same ▸ UInt64.le_refl _
  · have less : id < e.id := by simpa using (List.mem_filter.mp hmem).2
    exact UInt64.le_of_lt less

theorem isLive_and_parentOf_of_mem (sorted : Ascending d.entries) {e : Entry} (hmem : e ∈ d.entries)
    (live : e.live = true) (parent : e.parent = some p) :
    d.isLive e.id = true ∧ d.parentOf e.id = some p := by
  have found := find?_of_mem sorted hmem
  exact ⟨isLive_iff.mpr ⟨e, found, live⟩, by simp [parentOf, found, parent]⟩

private theorem eq_or_grownOn_of_mem_subtree (sorted : Ascending d.entries) (h : x ∈ d.subtree id) :
    x = id ∨ d.GrownOn id x := by
  rw [subtree_eq] at h
  refine foldl_join_induction_ascending (P := fun x => x = id ∨ d.GrownOn id x)
    (sorted.filter _) ?_ ?_ ?_ x h
  · intro x hx e hmem
    have same : x = id := by simpa using hx
    have above : id < e.id := by simpa using (List.mem_filter.mp hmem).2
    exact same ▸ above
  · intro x hx
    exact Or.inl (by simpa using hx)
  · intro e hmem p live parent less hp
    obtain ⟨isLive, parentOf⟩ :=
      isLive_and_parentOf_of_mem sorted (List.mem_filter.mp hmem).1 live parent
    rcases hp with rfl | below
    · exact Or.inr (.child isLive parentOf less)
    · exact Or.inr (.step below isLive parentOf less)

theorem eq_or_builtOn_of_mem_subtree (sorted : Ascending d.entries) (h : x ∈ d.subtree id) :
    x = id ∨ d.BuiltOn id x :=
  (eq_or_grownOn_of_mem_subtree sorted h).imp_right GrownOn.builtOn

/-- The pass does not miss a live state whose parent it finds and that comes after its parent. -/
theorem mem_subtree_of_parent (sorted : Ascending d.entries) (live : d.isLive x = true)
    (parent : d.parentOf x = some p) (less : p < x) (hp : p ∈ d.subtree id) :
    x ∈ d.subtree id := by
  obtain ⟨e, found, isLive⟩ := isLive_iff.mp live
  obtain ⟨hmem, rfl⟩ := mem_of_find? found
  have entryParent : e.parent = some p := by simpa [parentOf, found] using parent
  have above : id < e.id := by
    have := le_of_mem_subtree hp
    grind
  rw [subtree_eq] at hp ⊢
  refine mem_foldl_join_of_parent (sorted.filter _) ?_ isLive entryParent less hp
  exact List.mem_filter.mpr ⟨hmem, by simpa using above⟩

theorem mem_subtree_iff (sorted : Ascending d.entries) :
    x ∈ d.subtree id ↔ x = id ∨ d.GrownOn id x := by
  refine ⟨eq_or_grownOn_of_mem_subtree sorted, ?_⟩
  rintro (rfl | grown)
  · exact mem_subtree_self d x
  · induction grown with
    | child live parent less =>
      exact mem_subtree_of_parent sorted live parent less (mem_subtree_self d id)
    | step _ live parent less ih => exact mem_subtree_of_parent sorted live parent less ih

end Document

end ProofHost
