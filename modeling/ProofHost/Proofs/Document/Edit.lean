import ProofHost.Proofs.Document.Operations

/-!
Documents that come about by edits, one after another. As long as numbers from elsewhere are greater
than all recorded ones, and nobody goes back to a state that is removed in the same move, the live
states form a tree at every point.
-/

set_option autoImplicit false

namespace ProofHost

inductive Edit where
  | init
  | reset (id : StateId)
  | add (editAt parent : Option StateId) (text : String)
  | insert (id : StateId) (editAt parent : Option StateId) (text : String)
  | cancel (id : StateId)
  | rollback (good bad : StateId)
  deriving DecidableEq, Repr

namespace Document

variable {d : Document}

def edit (d : Document) : Edit → Document
  | .init => d.init.2
  | .reset id => d.reset id
  | .add editAt parent text => (d.add editAt parent text).2
  | .insert id editAt parent text => (d.insert id editAt parent text).2
  | .cancel id => (d.cancel id).2
  | .rollback good bad => (d.rollback good bad).2

/--
The edits that respect the order of the states: a number from elsewhere is greater than all recorded
ones, and the good state of a rollback is not removed with the bad one.
-/
def Orderly (d : Document) : Edit → Prop
  | .reset id => ∀ e ∈ d.entries, e.id < id
  | .insert id _ _ _ => ∀ e ∈ d.entries, e.id < id
  | .rollback good bad => good ≠ bad ∧ ¬ d.BuiltOn bad good
  | .init => True
  | .add .. => True
  | .cancel _ => True

/-- The documents that orderly edits lead to, none of which records the greatest number. -/
inductive Reached : Document → Prop
  | new : Reached .new
  | edit {d : Document} (reached : Reached d) (e : Edit) (orderly : d.Orderly e)
    (bounded : ∀ entry ∈ (d.edit e).entries, entry.id < StateId.greatest) : Reached (d.edit e)

private theorem Reached.to {d' : Document} (reached : Reached d) (e : Edit) (orderly : d.Orderly e)
    (result : d.edit e = d') (bounded : ∀ entry ∈ d'.entries, entry.id < StateId.greatest) :
    Reached d' := by
  subst result
  exact .edit reached e orderly bounded

theorem Counted.edit (h : d.Counted) (e : Edit) : (d.edit e).Counted := by
  cases e with
  | init => exact h.issue.reset _
  | reset id => exact h.reset id
  | add editAt parent text => exact h.add editAt parent text
  | insert id editAt parent text => exact h.insert id editAt parent text
  | cancel id => exact h.cancel id
  | rollback good bad => exact h.rollback good bad

private theorem Reached.counted (h : Reached d) : d.Counted := by
  induction h with
  | new =>
    intro e hmem
    cases hmem
  | edit _ e _ _ ih => exact ih.edit e

private theorem Reached.bounded (h : Reached d) : ∀ e ∈ d.entries, e.id < StateId.greatest := by
  cases h with
  | new =>
    intro e hmem
    cases hmem
  | edit _ e _ bounded => exact bounded

theorem Blank.edit (h : d.Blank) (e : Edit) :
    d.edit e = d ∨ ∃ root, (d.edit e).Rooted root := by
  have sorted : Ascending d.entries := by
    rw [h.noEntries]
    exact List.Pairwise.nil
  have unrooted : d.root.isSome = false := by rw [h.noRoot]; rfl
  cases e with
  | init => exact Or.inr ⟨_, rooted_init sorted⟩
  | reset id => exact Or.inr ⟨id, rooted_reset sorted id⟩
  | add editAt parent text =>
    rcases add_cases d editAt parent text with ⟨e, refused⟩ | ⟨p, resolved, -⟩
    · exact Or.inl (congrArg Prod.snd refused)
    · have := (isLive_of_resolveParent resolved).1
      simp [unrooted] at this
  | insert id editAt parent text =>
    rcases insert_cases d id editAt parent text with ⟨e, refused⟩ | ⟨p, -, resolved, -⟩
    · exact Or.inl (congrArg Prod.snd refused)
    · have := (isLive_of_resolveParent resolved).1
      simp [unrooted] at this
  | cancel id =>
    rcases cancel_cases d id with ⟨e, refused⟩ | ⟨rooted, -⟩
    · exact Or.inl (congrArg Prod.snd refused)
    · simp [unrooted] at rooted
  | rollback good bad =>
    rcases rollback_cases d good bad with ⟨e, refused⟩ | ⟨-, live, -⟩
    · exact Or.inl (congrArg Prod.snd refused)
    · obtain ⟨entry, found, -⟩ := isLive_iff.mp live
      have := (mem_of_find? found).1
      simp [h.noEntries] at this

theorem Rooted.edit {root : StateId} (h : d.Rooted root) (counted : d.Counted)
    (bounded : ∀ e ∈ d.entries, e.id < StateId.greatest) {e : Edit} (orderly : d.Orderly e) :
    ∃ root, (d.edit e).Rooted root := by
  cases e with
  | init => exact ⟨_, rooted_init h.ascending⟩
  | reset id => exact ⟨id, rooted_reset h.ascending id⟩
  | add editAt parent text => exact ⟨root, h.add (counted.lt_issue bounded) editAt parent text⟩
  | insert id editAt parent text => exact ⟨root, h.insert orderly editAt parent text⟩
  | cancel id => exact ⟨root, h.cancel id⟩
  | rollback good bad => exact ⟨root, h.rollback orderly.1 orderly.2⟩

private theorem Reached.blank_or_rooted (h : Reached d) : d.Blank ∨ ∃ root, d.Rooted root := by
  induction h with
  | new => exact Or.inl ⟨rfl, rfl, rfl⟩
  | edit reached e orderly _ ih =>
    rcases ih with blank | ⟨root, rooted⟩
    · rcases blank.edit e with same | rooted
      · exact Or.inl (same.symm ▸ blank)
      · exact Or.inr rooted
    · exact Or.inr (rooted.edit reached.counted reached.bounded orderly)

/--
Either nothing was ever recorded, or the live states form a tree: the root is live and has no
parent, the tip is live, every other live state has a live parent of a smaller number, and the path
of each live state is the branch that leads to it from the root.
-/
theorem live_states_form_tree (h : Reached d) :
    (d.root = none ∧ d.tip = none ∧ d.entries = []) ∨
      ∃ root tip, d.root = some root ∧ d.isLive root = true ∧ d.parentOf root = none ∧
        d.tip = some tip ∧ d.isLive tip = true ∧
        (∀ x, d.isLive x = true → x ≠ root →
          ∃ p, d.parentOf x = some p ∧ d.isLive p = true ∧ p < x) ∧
        ∀ x, d.isLive x = true → ∃ branch, d.path x = .ok branch ∧ d.IsBranch root x branch := by
  rcases h.blank_or_rooted with blank | ⟨root, rooted⟩
  · exact Or.inl ⟨blank.noRoot, blank.noTip, blank.noEntries⟩
  · obtain ⟨tip, hTip, liveTip⟩ := rooted.liveTip
    refine Or.inr ⟨root, tip, rooted.isRoot, rooted.liveRoot, rooted.topmost, hTip, liveTip,
      rooted.parent, ?_⟩
    intro x live
    exact rooted.toBranching.path live

theorem live_states_form_tree_after_rollback :
    let d : Document :=
      ⟨[⟨4, none, "", true⟩, ⟨5, some 4, "a.", false⟩, ⟨6, some 4, "b.", true⟩,
        ⟨9, some 6, "c.", false⟩], some 4, some 6, 10⟩
    Reached d ∧ ∃ branch, d.path 6 = .ok branch ∧ d.IsBranch 4 6 branch := by
  intro d
  have rooted : Reached ⟨[⟨4, none, "", true⟩], some 4, some 4, 5⟩ :=
    Reached.new.to (.reset 4) (fun e hmem => nomatch hmem) (by decide) (by decide)
  have added : Reached ⟨[⟨4, none, "", true⟩, ⟨5, some 4, "a.", true⟩], some 4, some 5, 6⟩ :=
    rooted.to (.add none none "a.") trivial (by decide) (by decide)
  have edited : Reached ⟨[⟨4, none, "", true⟩, ⟨5, some 4, "a.", false⟩,
      ⟨6, some 4, "b.", true⟩], some 4, some 6, 7⟩ :=
    added.to (.add (some 5) none "b.") trivial (by decide) (by decide)
  have extended : Reached ⟨[⟨4, none, "", true⟩, ⟨5, some 4, "a.", false⟩,
      ⟨6, some 4, "b.", true⟩, ⟨9, some 6, "c.", true⟩], some 4, some 9, 10⟩ := by
    refine edited.to (.insert 9 none none "c.") ?_ (by decide) (by decide)
    intro e hmem
    simp only [List.mem_cons, List.not_mem_nil, or_false] at hmem
    rcases hmem with rfl | rfl | rfl <;> decide
  have reached : Reached d := by
    refine extended.to (.rollback 6 9) ⟨by decide, fun below => ?_⟩ (by decide) (by decide)
    rcases extended.blank_or_rooted with blank | ⟨root, rooted⟩
    · exact absurd blank.noRoot (by decide)
    · exact absurd (rooted.toBranching.lt_of_builtOn below) (by decide)
  rcases live_states_form_tree reached with ⟨noRoot, -⟩ | ⟨root, tip, isRoot, -, -, -, -, -, paths⟩
  · cases noRoot
  · cases isRoot
    exact ⟨reached, paths 6 (by decide)⟩

end Document

end ProofHost
