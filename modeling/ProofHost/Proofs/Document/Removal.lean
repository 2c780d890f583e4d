import ProofHost.Proofs.Document.History

/-!
What is removed from a document, whatever the numbers of its states. To cancel a state removes it
and what grows on it, so that nothing is left hanging in the air as long as every state has a
greater number than the one that it is built on. To go back makes the good state the tip even if it
is removed together with the bad one.
-/

set_option autoImplicit false

namespace ProofHost

namespace Document

variable {d : Document} {root id x p tip good bad : StateId} {editAt parent : Option StateId}

private theorem isLive_cancel (sorted : Ascending d.entries) (done : (d.cancel id).1 = .ok tip) :
    (d.cancel id).2.isLive x = true ↔ d.isLive x = true ∧ x ≠ id ∧ ¬ d.GrownOn id x := by
  rcases cancel_cases d id with ⟨e, refused⟩ | ⟨-, -, -, pruned⟩
  · rw [refused] at done
    cases done
  · rw [pruned, isLive_prune, mem_subtree_iff sorted, not_or]

/-- The edits with which a document follows what a kernel reports of roots, sentences and
removals. -/
def Reported (_ : Document) : Edit → Prop
  | .reset _ | .insert .. | .cancel _ => True
  | .init | .add .. | .rollback .. => False

/-- Such edits where a state that is recorded has a greater number than the one it is built on. -/
def Upward (d : Document) : Edit → Prop
  | .insert id editAt parent _ =>
    ∀ p, d.wasIssued id = false → d.resolveParent editAt parent = .ok p → p < id
  | e => d.Reported e

theorem wasIssued_cut (d : Document) (editAt : Option StateId) (x : StateId) :
    (d.cut editAt).wasIssued x = d.wasIssued x := by
  cases editAt with
  | none => rfl
  | some start => exact wasIssued_killed

private theorem Rooted.insert_upward (h : d.Rooted root) {text : String}
    (upward : d.Upward (.insert id editAt parent text)) :
    (d.insert id editAt parent text).2.Rooted root := by
  rcases insert_cases d id editAt parent text with ⟨e, refused⟩ | ⟨p, fresh, resolved, done⟩
  · rw [refused]
    exact h
  · rw [done]
    obtain ⟨branching, live⟩ := h.toBranching.cut resolved
    have unused : ((d.cut editAt).bump id).wasIssued id = false :=
      (wasIssued_cut d editAt id).trans fresh
    exact (branching.bump id).attach_above live unused (upward p fresh resolved) text

private theorem Rooted.edit_upward (h : d.Rooted root) {e : Edit} (upward : d.Upward e) :
    ∃ root, (d.edit e).Rooted root := by
  cases e with
  | reset id => exact ⟨id, rooted_reset h.ascending id⟩
  | insert id editAt parent text => exact ⟨root, h.insert_upward upward⟩
  | cancel id => exact ⟨root, h.cancel id⟩
  | init => exact upward.elim
  | add editAt parent text => exact upward.elim
  | rollback good bad => exact upward.elim

private theorem EditedBy.blank_or_rooted (edited : EditedBy Upward d) :
    d.Blank ∨ ∃ root, d.Rooted root := by
  induction edited with
  | new => exact Or.inl ⟨rfl, rfl, rfl⟩
  | blank => exact Or.inl ⟨rfl, rfl, rfl⟩
  | edit _ e upward ih =>
    rcases ih with blank | ⟨root, rooted⟩
    · rcases blank.edit e with same | rooted
      · exact Or.inl (same.symm ▸ blank)
      · exact Or.inr rooted
    · exact rooted.edit_upward upward |>.elim fun root rooted => Or.inr ⟨root, rooted⟩

private theorem Blank.isLive (blank : d.Blank) (x : StateId) : d.isLive x = false := by
  simp [Document.isLive, find?, blank.noEntries]

/--
In a document that follows a kernel with any numbers, to cancel a state removes exactly that state
and what grows on it. If each state has a greater number than the one it is built on, then every
live state but the root is built on a live one, and to cancel a state removes all that is built on
it.
-/
theorem cancel_removes_exactly_grown (edited : EditedBy Reported d) :
    (∀ id tip, (d.cancel id).1 = .ok tip → ∀ x,
      (d.cancel id).2.isLive x = true ↔ d.isLive x = true ∧ x ≠ id ∧ ¬ d.GrownOn id x) ∧
    (EditedBy Upward d →
      (∀ x, d.isLive x = true → d.root ≠ some x →
        ∃ p, d.parentOf x = some p ∧ d.isLive p = true) ∧
      ∀ id tip, (d.cancel id).1 = .ok tip → ∀ x, d.BuiltOn id x →
        (d.cancel id).2.isLive x = false) := by
  have exact_removal := fun id tip (done : (d.cancel id).1 = .ok tip) x =>
    isLive_cancel (x := x) edited.ascending done
  refine ⟨exact_removal, fun upward => ?_⟩
  rcases upward.blank_or_rooted with blank | ⟨root, rooted⟩
  · constructor
    · intro x live
      simp [blank.isLive x] at live
    · intro id tip _ x below
      have live := below.isLive
      simp [blank.isLive x] at live
  · constructor
    · intro x live notRoot
      have ne : x ≠ root := by
        rintro rfl
        exact notRoot rooted.isRoot
      obtain ⟨p, parent, livePar, -⟩ := rooted.parent x live ne
      exact ⟨p, parent, livePar⟩
    · intro id tip done x below
      refine Bool.eq_false_iff.mpr fun left => ?_
      obtain ⟨-, -, apart⟩ := (exact_removal id tip done x).mp left
      exact apart (rooted.toBranching.grownOn below)

/-- A root and two states, each built on the one before it, with gaps in their numbers. -/
def spaced : Document :=
  ⟨[⟨1, none, "", true⟩, ⟨4, some 1, "a.", true⟩, ⟨9, some 4, "b.", true⟩], some 1, some 9, 10⟩

/-- The same with the numbers of the two states the other way round. -/
def crossed : Document :=
  ⟨[⟨1, none, "", true⟩, ⟨4, some 9, "b.", true⟩, ⟨9, some 1, "a.", true⟩], some 1, some 4, 10⟩

theorem cancel_removes_exactly_grown_spaced :
    EditedBy Upward spaced ∧ (spaced.cancel 4).1 = .ok 1 ∧
      (spaced.cancel 4).2.isLive 9 = false := by
  have rooted : EditedBy Upward ⟨[⟨1, none, "", true⟩], some 1, some 1, 2⟩ :=
    EditedBy.new.to (.reset 1) trivial (by decide)
  have extended : EditedBy Upward
      ⟨[⟨1, none, "", true⟩, ⟨4, some 1, "a.", true⟩], some 1, some 4, 5⟩ := by
    refine rooted.to (.insert 4 none none "a.") ?_ (by decide)
    rintro p - ⟨⟩
    decide
  have upward : EditedBy Upward spaced := by
    refine extended.to (.insert 9 none none "b.") ?_ (by decide)
    rintro p - ⟨⟩
    decide
  have reported : EditedBy Reported spaced := by
    refine upward.mono fun d e permit => ?_
    cases e with
    | insert => trivial
    | _ => exact permit
  have done : (spaced.cancel 4).1 = .ok 1 := by decide
  have below : spaced.BuiltOn 4 9 := .child (by decide) (by decide)
  exact ⟨upward, done, ((cancel_removes_exactly_grown reported).2 upward).2 4 1 done 9 below⟩

/-- A state with a smaller number than its parent is left alone when the parent is cancelled. -/
theorem cancel_leaves_smaller_child :
    EditedBy Reported crossed ∧ (crossed.cancel 9).1 = .ok 4 ∧ crossed.BuiltOn 9 4 ∧
      (crossed.cancel 9).2.root = some 1 ∧ (crossed.cancel 9).2.isLive 4 = true ∧
      (crossed.cancel 9).2.parentOf 4 = some 9 ∧ (crossed.cancel 9).2.isLive 9 = false := by
  have rooted : EditedBy Reported ⟨[⟨1, none, "", true⟩], some 1, some 1, 2⟩ :=
    EditedBy.new.to (.reset 1) trivial (by decide)
  have extended : EditedBy Reported
      ⟨[⟨1, none, "", true⟩, ⟨9, some 1, "a.", true⟩], some 1, some 9, 10⟩ :=
    rooted.to (.insert 9 none none "a.") trivial (by decide)
  refine ⟨extended.to (.insert 4 none none "b.") trivial (by decide), by decide,
    .child (by decide) (by decide), ?_, ?_, ?_, ?_⟩ <;> decide

private theorem add_to_tip_iff (rooted : d.root.isSome = true) (isTip : d.tip = some tip)
    (text : String) :
    (∃ id, (d.add none none text).1 = .ok id) ↔ d.isLive tip = true := by
  have hasRoot : d.root.isNone = false := by simpa using rooted
  have resolved : d.resolveParent none none = (do d.ensureLive tip; return tip) := by
    simp only [resolveParent, isTip]
    rfl
  cases live : d.isLive tip with
  | false =>
    have refused : d.ensureLive tip = .error (.notLive tip) := by simp [ensureLive, hasRoot, live]
    rw [refused] at resolved
    simp [add, resolved, bind, Except.bind]
  | true =>
    have accepted : d.ensureLive tip = .ok () := by simp [ensureLive, hasRoot, live]
    rw [accepted] at resolved
    simp [add, resolved, bind, Except.bind, pure, Except.pure]

private theorem rollback_ok (sorted : Ascending d.entries)
    (done : (d.rollback good bad).1 = .ok ()) :
    (d.rollback good bad).2.root.isSome = true ∧ (d.rollback good bad).2.tip = some good ∧
      ((d.rollback good bad).2.isLive good = true ↔
        ¬ (d.isLive bad = true ∧ d.root ≠ some bad ∧ (good = bad ∨ d.GrownOn bad good))) := by
  rcases rollback_cases d good bad with
    ⟨e, refused⟩ | ⟨rooted, live, ⟨keeps, moved⟩ | ⟨liveBad, notRoot, removed⟩⟩
  · rw [refused] at done
    cases done
  · rw [moved]
    have stays : ({ d with tip := some good } : Document).isLive good = true := live
    refine ⟨rooted, rfl, ?_⟩
    simp only [stays, true_iff]
    exact fun ⟨liveBad, notRoot, _⟩ => keeps ⟨liveBad, notRoot⟩
  · cases isTip : (d.prune bad).tip with
    | none =>
      rw [removed, isTip] at done
      cases done
    | some tip =>
      rw [removed, isTip]
      have left : ({ d.prune bad with tip := some good } : Document).isLive good = true ↔
          d.isLive good = true ∧ good ∉ d.subtree bad := isLive_prune
      refine ⟨rooted, rfl, ?_⟩
      simp only [Option.elim_some, left, live, liveBad, true_and, mem_subtree_iff sorted]
      simp [notRoot]

/--
To go back, if it succeeds, makes the good state the tip. That tip is live, and takes the next
sentence, unless the bad state is removed and the good one with it, being the same or grown on it.
-/
theorem rollback_tip_live_iff (edited : Edited d) (done : (d.rollback good bad).1 = .ok ()) :
    (d.rollback good bad).2.tip = some good ∧
    ((d.rollback good bad).2.isLive good = true ↔
      ¬ (d.isLive bad = true ∧ d.root ≠ some bad ∧ (good = bad ∨ d.GrownOn bad good))) ∧
    ∀ text, (∃ id, ((d.rollback good bad).2.add none none text).1 = .ok id) ↔
      (d.rollback good bad).2.isLive good = true := by
  obtain ⟨rooted, isTip, live⟩ := rollback_ok (EditedBy.ascending edited) done
  exact ⟨isTip, live, fun text => add_to_tip_iff rooted isTip text⟩

def branch : Document :=
  ⟨[⟨1, none, "", true⟩, ⟨2, some 1, "a.", true⟩, ⟨3, some 2, "b.", true⟩], some 1, some 3, 4⟩

private theorem edited_branch : Edited branch := by
  have rooted : Edited ⟨[⟨1, none, "", true⟩], some 1, some 1, 2⟩ :=
    EditedBy.new.to .init trivial (by decide)
  have extended : Edited ⟨[⟨1, none, "", true⟩, ⟨2, some 1, "a.", true⟩], some 1, some 2, 3⟩ :=
    rooted.to (.add none none "a.") trivial (by decide)
  exact extended.to (.add none none "b.") trivial (by decide)

theorem rollback_tip_live_iff_branch :
    (branch.rollback 2 3).1 = .ok () ∧ (branch.rollback 2 3).2.tip = some 2 ∧
      (branch.rollback 2 3).2.isLive 2 = true := by
  have done : (branch.rollback 2 3).1 = .ok () := by decide
  obtain ⟨isTip, live, -⟩ := rollback_tip_live_iff edited_branch done
  refine ⟨done, isTip, live.mpr ?_⟩
  rintro ⟨-, -, same | grown⟩
  · exact absurd same (by decide)
  · exact absurd grown.lt (by decide)

/-- To go back to the failing state itself, or to one that is built on it, leaves a dead tip, on
which no sentence is accepted. -/
theorem rollback_leaves_dead_tip :
    Edited branch ∧ (branch.rollback 3 3).1 = .ok () ∧ (branch.rollback 3 3).2.tip = some 3 ∧
      (branch.rollback 3 3).2.isLive 3 = false ∧
      ((branch.rollback 3 3).2.add none none "c.").1 = .error (.notLive 3) ∧
      (branch.rollback 3 2).1 = .ok () ∧ (branch.rollback 3 2).2.tip = some 3 ∧
      (branch.rollback 3 2).2.isLive 3 = false := by
  refine ⟨edited_branch, ?_, ?_, ?_, ?_, ?_, ?_, ?_⟩ <;> decide

end Document

end ProofHost
