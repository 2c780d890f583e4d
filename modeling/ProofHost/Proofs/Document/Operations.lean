import ProofHost.Proofs.Document.Tree

/-!
The operations on a document, each with all that it can do: it is refused and changes nothing, or it
changes the document in one way. From this follows what the operations keep: the counter stays ahead
of the recorded numbers, and the live states stay a tree as long as new numbers are greater than all
others.
-/

set_option autoImplicit false

namespace ProofHost

namespace Document

variable {d : Document} {root id x p good bad : StateId} {editAt parent : Option StateId}
  {text : String}

theorem ensureLive_cases (d : Document) (id : StateId) :
    (∃ e, d.ensureLive id = .error e) ∨
      (d.ensureLive id = .ok () ∧ d.root.isSome = true ∧ d.isLive id = true) := by
  unfold ensureLive
  cases hroot : d.root with
  | none => exact Or.inl ⟨.notInitialized, rfl⟩
  | some r =>
    by_cases live : d.isLive id = true
    · exact Or.inr ⟨by simp [live], rfl, live⟩
    · exact Or.inl ⟨.notLive id, by simp [live]⟩

private theorem eq_of_ensureLive {q : StateId} (h : (do d.ensureLive q; return q) = Except.ok p) :
    q = p ∧ d.root.isSome = true ∧ d.isLive p = true := by
  rcases ensureLive_cases d q with ⟨e, refused⟩ | ⟨accepted, rooted, live⟩
  · rw [refused] at h
    cases h
  · rw [accepted] at h
    cases h
    exact ⟨rfl, rooted, live⟩

theorem isLive_of_resolveParent (h : d.resolveParent editAt parent = .ok p) :
    d.root.isSome = true ∧ d.isLive p = true ∧
      ∀ edit, editAt = some edit → d.isLive edit = true ∧ d.parentOf edit = some p := by
  cases editAt with
  | some edit =>
    cases parent with
    | some given => cases h
    | none =>
      simp only [resolveParent] at h
      rcases ensureLive_cases d edit with ⟨e, refused⟩ | ⟨accepted, rooted, live⟩
      · rw [refused] at h
        cases h
      · rw [accepted] at h
        cases found : d.parentOf edit with
        | none =>
          rw [found] at h
          cases h
        | some q =>
          rw [found] at h
          obtain ⟨rfl, -, livePar⟩ := eq_of_ensureLive h
          refine ⟨rooted, livePar, ?_⟩
          rintro _ ⟨⟩
          exact ⟨live, found⟩
  | none =>
    have noEdit : ∀ edit, none = some edit → d.isLive edit = true ∧ d.parentOf edit = some p := by
      rintro _ ⟨⟩
    cases parent with
    | some given =>
      obtain ⟨rfl, rooted, live⟩ := eq_of_ensureLive h
      exact ⟨rooted, live, noEdit⟩
    | none =>
      simp only [resolveParent] at h
      cases hTip : d.tip with
      | none =>
        rw [hTip] at h
        cases h
      | some tip =>
        rw [hTip] at h
        obtain ⟨rfl, rooted, live⟩ := eq_of_ensureLive h
        exact ⟨rooted, live, noEdit⟩

/-- Without an edit point a sentence is put on the given state, or on the tip. -/
theorem or_tip_of_resolveParent (resolved : d.resolveParent none parent = .ok p) :
    parent.or d.tip = some p := by
  cases parent with
  | some given => rw [Option.some_or, (eq_of_ensureLive resolved).1]
  | none =>
    rw [Option.none_or]
    simp only [resolveParent] at resolved
    cases isTip : d.tip with
    | none =>
      rw [isTip] at resolved
      cases resolved
    | some tip =>
      rw [isTip] at resolved
      rw [(eq_of_ensureLive resolved).1]

@[simp] theorem next_cut (d : Document) (editAt : Option StateId) :
    (d.cut editAt).next = d.next := by
  cases editAt <;> rfl

@[simp] theorem root_cut (d : Document) (editAt : Option StateId) :
    (d.cut editAt).root = d.root := by
  cases editAt <;> rfl

theorem issue_cut (d : Document) (editAt : Option StateId) :
    (d.cut editAt).issue.1 = d.issue.1 := by
  simp [issue]

theorem add_eq (resolved : d.resolveParent editAt parent = .ok p) (text : String) :
    d.add editAt parent text =
      (.ok d.issue.1, (d.cut editAt).issue.2.attach d.issue.1 p text) := by
  simp only [add, resolved]
  rw [← issue_cut d editAt]

theorem add_cases (d : Document) (editAt parent : Option StateId) (text : String) :
    (∃ e, d.add editAt parent text = (.error e, d)) ∨
      ∃ p, d.resolveParent editAt parent = .ok p ∧
        d.add editAt parent text =
          (.ok d.issue.1, (d.cut editAt).issue.2.attach d.issue.1 p text) := by
  cases h : d.resolveParent editAt parent with
  | error e => exact Or.inl ⟨e, by simp only [add, h]⟩
  | ok p => exact Or.inr ⟨p, rfl, add_eq h text⟩

theorem insert_cases (d : Document) (id : StateId) (editAt parent : Option StateId)
    (text : String) :
    (∃ e, d.insert id editAt parent text = (.error e, d)) ∨
      ∃ p, d.wasIssued id = false ∧ d.resolveParent editAt parent = .ok p ∧
        d.insert id editAt parent text =
          (.ok (), ((d.cut editAt).bump id).attach id p text) := by
  unfold insert
  split
  · exact Or.inl ⟨.reused id, rfl⟩
  · rename_i fresh
    cases h : d.resolveParent editAt parent with
    | error e => exact Or.inl ⟨e, rfl⟩
    | ok p => exact Or.inr ⟨p, by simpa using fresh, rfl, rfl⟩

theorem cancel_cases (d : Document) (id : StateId) :
    (∃ e, d.cancel id = (.error e, d)) ∨
      d.root.isSome = true ∧ d.isLive id = true ∧ d.root ≠ some id ∧
        d.cancel id =
          ((d.prune id).tip.elim (.error .notInitialized) .ok, d.prune id) := by
  unfold cancel
  rcases ensureLive_cases d id with ⟨e, refused⟩ | ⟨accepted, rooted, live⟩
  · rw [refused]
    exact Or.inl ⟨e, rfl⟩
  · rw [accepted]
    by_cases isRoot : d.root = some id
    · exact Or.inl ⟨.cannotCancelRoot, by simp [isRoot]⟩
    · refine Or.inr ⟨rooted, live, isRoot, ?_⟩
      simp only [isRoot, if_false]
      cases (d.prune id).tip <;> rfl

theorem cancel_eq (rooted : d.root.isSome = true) (live : d.isLive id = true)
    (ne : d.root ≠ some id) :
    d.cancel id = ((d.prune id).tip.elim (.error .notInitialized) .ok, d.prune id) := by
  have isSome : d.root.isNone = false := by simpa using rooted
  have accepted : d.ensureLive id = .ok () := by simp [ensureLive, isSome, live]
  simp only [cancel, accepted, ne, if_false]
  cases (d.prune id).tip <;> rfl

theorem rollback_cases (d : Document) (good bad : StateId) :
    (∃ e, d.rollback good bad = (.error e, d)) ∨
      d.root.isSome = true ∧ d.isLive good = true ∧
        (¬ (d.isLive bad = true ∧ d.root ≠ some bad) ∧
            d.rollback good bad = (.ok (), { d with tip := some good }) ∨
          d.isLive bad = true ∧ d.root ≠ some bad ∧
            d.rollback good bad = (d.prune bad).tip.elim
              (.error .notInitialized, d.prune bad)
              fun _ => (.ok (), { d.prune bad with tip := some good })) := by
  unfold rollback
  rcases ensureLive_cases d good with ⟨e, refused⟩ | ⟨accepted, rooted, live⟩
  · rw [refused]
    exact Or.inl ⟨e, rfl⟩
  · rw [accepted]
    refine Or.inr ⟨rooted, live, ?_⟩
    by_cases removes : (d.isLive bad && d.root != some bad) = true
    · obtain ⟨liveBad, ne⟩ : d.isLive bad = true ∧ d.root ≠ some bad := by simpa using removes
      refine Or.inr ⟨liveBad, ne, ?_⟩
      simp only [removes, if_true, cancel_eq rooted liveBad ne]
      cases (d.prune bad).tip <;> rfl
    · refine Or.inl ⟨by simpa using removes, ?_⟩
      simp only [removes]
      rfl

/-- Going back marks entries as dead and moves the tip, if it changes anything. -/
theorem rollback_eq_killed (d : Document) (good bad : StateId) :
    ∃ dead tip, (d.rollback good bad).2 = ⟨kill dead d.entries, d.root, tip, d.next⟩ := by
  have none_dead : kill (fun _ => false) d.entries = d.entries := by simp [kill]
  rcases rollback_cases d good bad with ⟨e, done⟩ | ⟨-, -, ⟨-, done⟩ | ⟨-, -, done⟩⟩
  · exact ⟨fun _ => false, d.tip, by rw [done, none_dead]⟩
  · exact ⟨fun _ => false, some good, by rw [done, none_dead]⟩
  · rw [done]
    cases (d.prune bad).tip <;> exact ⟨_, _, rfl⟩

/-- The counter has passed every recorded number that has a successor. -/
def Counted (d : Document) : Prop := ∀ e ∈ d.entries, StateId.following e.id ≤ d.next

theorem le_following (id : StateId) : id ≤ StateId.following id := by
  unfold StateId.following StateId.greatest
  split <;> grind

theorem lt_following (h : id < StateId.greatest) : id < StateId.following id := by
  unfold StateId.following
  rw [if_neg (UInt64.ne_of_lt h)]
  unfold StateId.greatest at h
  grind

theorem le_greatest (id : StateId) : id ≤ StateId.greatest := by
  unfold StateId.greatest
  grind

theorem following_greatest : StateId.following StateId.greatest = StateId.greatest := if_pos rfl

theorem next_le_issue (d : Document) : d.next ≤ d.issue.1 := by
  unfold issue
  grind

private theorem Counted.kill (h : d.Counted) (dead : StateId → Bool) (root tip : Option StateId) :
    (Document.mk (kill dead d.entries) root tip d.next).Counted :=
  forall_mem_kill (P := fun id => StateId.following id ≤ d.next) h

private theorem Counted.cut (h : d.Counted) (editAt : Option StateId) : (d.cut editAt).Counted := by
  cases editAt with
  | none => exact h
  | some edit => exact h.kill _ _ _

private theorem Counted.attach (h : d.Counted) (passed : StateId.following id ≤ d.next)
    (p : StateId)
    (text : String) : (d.attach id p text).Counted :=
  forall_mem_record (P := fun id => StateId.following id ≤ d.next) h passed

theorem Counted.issue (h : d.Counted) : d.issue.2.Counted := by
  intro e hmem
  have before := h e hmem
  have passed := next_le_issue d
  have after := le_following d.issue.1
  exact UInt64.le_trans before (UInt64.le_trans passed after)

private theorem following_le_next_bump (d : Document) (id : StateId) :
    StateId.following id ≤ (d.bump id).next := by
  simp only [Document.bump]
  split <;> grind

private theorem next_le_next_bump (d : Document) (id : StateId) : d.next ≤ (d.bump id).next := by
  simp only [Document.bump]
  split <;> grind

private theorem Counted.bump (h : d.Counted) (id : StateId) : (d.bump id).Counted := by
  intro e hmem
  have before := h e hmem
  exact UInt64.le_trans before (next_le_next_bump d id)

theorem Counted.reset (h : d.Counted) (id : StateId) : (d.reset id).Counted :=
  forall_mem_record (P := fun x => StateId.following x ≤ (d.bump id).next)
    ((h.bump id).kill (fun _ => true) none none) (following_le_next_bump d id)

theorem Counted.add (h : d.Counted) (editAt parent : Option StateId) (text : String) :
    (d.add editAt parent text).2.Counted := by
  rcases add_cases d editAt parent text with ⟨e, refused⟩ | ⟨p, -, done⟩
  · rw [refused]
    exact h
  · rw [done]
    refine (h.cut editAt).issue.attach ?_ p text
    rw [← issue_cut d editAt]
    exact UInt64.le_refl _

theorem Counted.insert (h : d.Counted) (id : StateId) (editAt parent : Option StateId)
    (text : String) : (d.insert id editAt parent text).2.Counted := by
  rcases insert_cases d id editAt parent text with ⟨e, refused⟩ | ⟨p, -, -, done⟩
  · rw [refused]
    exact h
  · rw [done]
    exact ((h.cut editAt).bump id).attach (following_le_next_bump _ id) p text

theorem Counted.cancel (h : d.Counted) (id : StateId) : (d.cancel id).2.Counted := by
  rcases cancel_cases d id with ⟨e, refused⟩ | ⟨-, -, -, done⟩
  · rw [refused]
    exact h
  · rw [done]
    exact h.kill _ _ _

theorem Counted.rollback (h : d.Counted) (good bad : StateId) :
    (d.rollback good bad).2.Counted := by
  obtain ⟨dead, tip, done⟩ := rollback_eq_killed d good bad
  rw [done]
  exact h.kill dead d.root tip

/-- The next number is greater than all recorded ones unless the greatest number is taken. -/
theorem Counted.lt_issue (h : d.Counted) (bounded : ∀ e ∈ d.entries, e.id < StateId.greatest) :
    ∀ e ∈ d.entries, e.id < d.issue.1 := by
  intro e hmem
  have ahead := lt_following (bounded e hmem)
  have := UInt64.le_trans (h e hmem) (next_le_issue d)
  grind

theorem rooted_reset (sorted : Ascending d.entries) (id : StateId) : (d.reset id).Rooted id := by
  refine ⟨⟨(sorted.kill _).record _, rfl, isLive_reset.mpr rfl, ?_, ?_⟩, id, rfl,
    isLive_reset.mpr rfl⟩
  · rw [parentOf_reset, if_pos rfl]
  · intro x live notRoot
    exact absurd (isLive_reset.mp live) notRoot

theorem rooted_init (sorted : Ascending d.entries) : d.init.2.Rooted d.issue.1 := by
  have sorted : Ascending d.issue.2.entries := sorted
  exact rooted_reset sorted d.issue.1

theorem Branching.cut (h : d.Branching root) (resolved : d.resolveParent editAt parent = .ok p) :
    (d.cut editAt).Branching root ∧ (d.cut editAt).isLive p = true := by
  obtain ⟨-, livePar, edits⟩ := isLive_of_resolveParent resolved
  cases editAt with
  | none => exact ⟨h, livePar⟩
  | some edit =>
    obtain ⟨live, found⟩ := edits edit rfl
    have notRoot : edit ≠ root := by
      rintro rfl
      simp [h.topmost] at found
    obtain ⟨q, hq, -, less⟩ := h.parent edit live notRoot
    have same : q = p := Option.some.inj (hq.symm.trans found)
    exact ⟨h.truncate live notRoot, isLive_truncate.mpr ⟨livePar, same ▸ less⟩⟩

theorem forall_mem_cut {P : StateId → Prop} (h : ∀ e ∈ d.entries, P e.id) :
    ∀ e ∈ (d.cut editAt).entries, P e.id := by
  cases editAt with
  | none => exact h
  | some edit =>
    have killed : ∀ e ∈ kill (fun x => edit ≤ x) d.entries, P e.id := forall_mem_kill h
    exact killed

theorem Rooted.add (h : d.Rooted root) (fresh : ∀ e ∈ d.entries, e.id < d.issue.1)
    (editAt parent : Option StateId) (text : String) :
    (d.add editAt parent text).2.Rooted root := by
  rcases add_cases d editAt parent text with ⟨e, refused⟩ | ⟨p, resolved, done⟩
  · rw [refused]
    exact h
  · rw [done]
    obtain ⟨branching, live⟩ := h.toBranching.cut resolved
    exact branching.issue.attach live (forall_mem_cut (P := (· < d.issue.1)) fresh) text

theorem Rooted.insert (h : d.Rooted root) (fresh : ∀ e ∈ d.entries, e.id < id)
    (editAt parent : Option StateId) (text : String) :
    (d.insert id editAt parent text).2.Rooted root := by
  rcases insert_cases d id editAt parent text with ⟨e, refused⟩ | ⟨p, -, resolved, done⟩
  · rw [refused]
    exact h
  · rw [done]
    obtain ⟨branching, live⟩ := h.toBranching.cut resolved
    exact (branching.bump id).attach live (forall_mem_cut (P := (· < id)) fresh) text

/-- Where the tip goes when states are removed: it stays, or it moves to a live parent. -/
theorem Rooted.prune (h : d.Rooted root) (live : d.isLive id = true) (ne : id ≠ root) :
    (d.prune id).Rooted root := by
  refine ⟨h.toBranching.prune ne, ?_⟩
  obtain ⟨tip, hTip, liveTip⟩ := h.liveTip
  by_cases removed : tip ∈ d.subtree id
  · obtain ⟨p, parent, livePar, less⟩ := h.parent id live ne
    refine ⟨p, ?_, isLive_prune.mpr ⟨livePar, fun hmem => ?_⟩⟩
    · simp [Document.prune, hTip, removed, parent]
    · have := le_of_mem_subtree hmem
      grind
  · refine ⟨tip, ?_, isLive_prune.mpr ⟨liveTip, removed⟩⟩
    simp [Document.prune, hTip, removed]

theorem Rooted.cancel (h : d.Rooted root) (id : StateId) : (d.cancel id).2.Rooted root := by
  rcases cancel_cases d id with ⟨e, refused⟩ | ⟨-, live, notRoot, done⟩
  · rw [refused]
    exact h
  · rw [done]
    refine h.prune live fun same => notRoot ?_
    rw [h.isRoot, same]

private theorem Branching.moveTip (h : d.Branching root) (live : d.isLive good = true) :
    ({ d with tip := some good } : Document).Rooted root :=
  ⟨⟨h.ascending, h.isRoot, h.liveRoot, h.topmost, h.parent⟩, good, rfl, live⟩

/-- Going back keeps the tree if the good state is not removed with the bad one. -/
theorem Rooted.rollback (h : d.Rooted root) (ne : good ≠ bad) (apart : ¬ d.BuiltOn bad good) :
    (d.rollback good bad).2.Rooted root := by
  rcases rollback_cases d good bad with
    ⟨e, refused⟩ | ⟨-, live, ⟨-, done⟩ | ⟨liveBad, notRoot, done⟩⟩
  · rw [refused]
    exact h
  · rw [done]
    exact h.toBranching.moveTip live
  · have pruned := h.prune liveBad fun same => notRoot (by rw [h.isRoot, same])
    obtain ⟨tip, hTip, -⟩ := pruned.liveTip
    rw [done, hTip]
    refine pruned.toBranching.moveTip (isLive_prune.mpr ⟨live, fun hmem => ?_⟩)
    rcases eq_or_builtOn_of_mem_subtree h.ascending hmem with same | below
    · exact ne same
    · exact apart below

end Document

end ProofHost
