import ProofHost.Proofs.Document.Orderly
import ProofHost.Proofs.Document.Rows

/-!
Drawings are legible: whatever the sentences say, the drawing of a tree shows the whole tree. The
rows below a state are those after its own with a longer margin, so that the rows determine which
states stand on which; and every live state grows on the root and so has its row.
-/

set_option autoImplicit false

namespace ProofHost

namespace Document

variable {d d' : Document} {root top id x y : StateId} {ids ids' : List StateId}
  {margin : List Char} {rows : List Row}

private theorem length_strip (isLast : Bool) : (strip isLast).length = 4 := by
  cases isLast <;> rfl

private theorem Draws.length_margin_le (h : d.Draws margin ids rows) :
    ∀ r ∈ rows, margin.length ≤ r.margin.length := by
  induction h with
  | done => exact List.forall_mem_nil _
  | @next margin id rest below after _ _ ih ih' =>
    refine List.forall_mem_cons.mpr ⟨Nat.le_refl _, List.forall_mem_append.mpr ⟨?_, ih'⟩⟩
    intro r mem
    have deeper := ih r mem
    rw [List.length_append] at deeper
    omega

private theorem Draws.takeWhile_deeper {isLast : Bool} {below after : List Row}
    (inner : d.Draws (margin ++ strip isLast) ids below) (later : d.Draws margin ids' after) :
    (below ++ after).takeWhile (margin.length < ·.margin.length) = below := by
  have deeper : ∀ r ∈ below, decide (margin.length < r.margin.length) = true := by
    intro r mem
    have := inner.length_margin_le r mem
    rw [List.length_append, length_strip] at this
    simp only [decide_eq_true_eq]
    omega
  rw [List.takeWhile_append_of_pos deeper]
  cases later with
  | done => simp
  | next => simp

private theorem Draws.children_eq (h : d.Draws margin ids rows) (h' : d'.Draws margin ids' rows) :
    ids = ids' ∧ ∀ r ∈ rows, d.children r.state = d'.children r.state := by
  induction h generalizing ids' with
  | done =>
    cases h'
    exact ⟨rfl, List.forall_mem_nil _⟩
  | @next margin id rest below after inner later ih ih' =>
    generalize whole : (⟨margin, rest.isEmpty, id⟩ :: (below ++ after) : List Row) = drawn at h'
    cases h' with
    | done => cases whole
    | @next _ id' rest' below' after' inner' later' =>
      rw [List.cons.injEq] at whole
      obtain ⟨row, whole⟩ := whole
      have last : rest.isEmpty = rest'.isEmpty := congrArg Row.isLast row
      obtain rfl : id = id' := congrArg Row.state row
      have sameBelow : below = below' := by
        rw [← Draws.takeWhile_deeper inner later, whole]
        exact Draws.takeWhile_deeper inner' later'
      subst sameBelow
      obtain rfl := List.append_cancel_left whole
      rw [← last] at inner'
      obtain ⟨children, deep⟩ := ih inner'
      obtain ⟨rfl, further⟩ := ih' later'
      exact ⟨rfl, List.forall_mem_cons.mpr ⟨children, List.forall_mem_append.mpr ⟨deep, further⟩⟩⟩

private theorem GrownOn.exists_child (sorted : Ascending d.entries) (h : d.GrownOn top x) :
    ∃ y ∈ d.children top, d.GrownFrom y x := by
  induction h with
  | @child x live parent less =>
    exact ⟨x, (mem_children sorted).mpr ⟨UInt64.le_of_lt less, live, parent⟩, Or.inl rfl⟩
  | @step p x _ live parent less ih =>
    obtain ⟨y, mem, grown⟩ := ih
    exact ⟨y, mem, Or.inr (grownOn_iff.mpr ⟨p, grown, live, parent, less⟩)⟩

private theorem Draws.complete (sorted : Ascending d.entries) (h : d.Draws margin ids rows) :
    ∀ y ∈ ids, ∀ x, d.GrownFrom y x → x ∈ rows.map Row.state := by
  induction h with
  | done => exact List.forall_mem_nil _
  | @next margin id rest below after _ _ ih ih' =>
    rw [List.map_cons, List.map_append]
    refine List.forall_mem_cons.mpr ⟨?_, ?_⟩
    · rintro x (rfl | grown)
      · exact List.mem_cons_self
      · obtain ⟨y, mem, grown⟩ := grown.exists_child sorted
        exact List.mem_cons_of_mem _ (List.mem_append_left _ (ih y mem x grown))
    · intro y mem x grown
      exact List.mem_cons_of_mem _ (List.mem_append_right _ (ih' y mem x grown))

namespace Branching

variable (h : d.Branching root)

include h

private theorem grownOn_root (live : d.isLive x = true) (ne : x ≠ root) : d.GrownOn root x := by
  induction hn : x.toNat using Nat.strongRecOn generalizing x with
  | ind n ih =>
    subst hn
    obtain ⟨p, parent, livePar, less⟩ := h.parent x live ne
    apply grownOn_iff.mpr
    refine ⟨p, ?_, live, parent, less⟩
    by_cases same : p = root
    · exact Or.inl same
    · exact Or.inr (ih p.toNat (UInt64.lt_iff_toNat_lt.mp less) livePar same rfl)

private theorem proper : ∀ x, d.isLive x = true → d.parentOf x ≠ some x :=
  fun _ live parent => UInt64.lt_irrefl _ (h.lt_of_parentOf live parent)

private theorem perm_liveIds (draws : d.Draws [] (d.children root) rows)
    (once : (root :: rows.map Row.state).Nodup) : (root :: rows.map Row.state).Perm d.liveIds := by
  have liveOnce : d.liveIds.Nodup := (liveIds_ascending h.ascending).imp UInt64.ne_of_lt
  apply (List.perm_ext_iff_of_nodup once liveOnce).mpr
  intro x
  rw [mem_liveIds h.ascending, List.mem_cons]
  constructor
  · rintro (rfl | mem)
    · exact h.liveRoot
    · exact (draws.grownOn h.ascending h.proper x mem).builtOn.isLive
  · intro live
    by_cases same : x = root
    · exact Or.inl same
    · obtain ⟨y, mem, grown⟩ := (h.grownOn_root live same).exists_child h.ascending
      exact Or.inr (draws.complete h.ascending y mem x grown)

private theorem render_eq : ∃ rows, d.Draws [] (d.children root) rows ∧
    d.render = String.ofList (rootLine root ++ rows.flatMap (Row.line d)) ∧
    (root :: rows.map Row.state).Perm d.liveIds := by
  obtain ⟨rows, draws, drawn, once⟩ :=
    render_eq_rows h.ascending h.proper h.isRoot (wasIssued_of_isLive h.liveRoot)
  exact ⟨rows, draws, drawn, h.perm_liveIds draws once⟩

private theorem parentOf_eq_of_children (h' : d'.Branching root)
    (first : d.children root = d'.children root)
    (others : ∀ x ∈ d.liveIds, x ≠ root → d.children x = d'.children x)
    (live : d.isLive x = true) : d.parentOf x = d'.parentOf x := by
  by_cases same : x = root
  · rw [same, h.topmost, h'.topmost]
  · obtain ⟨p, parent, livePar, less⟩ := h.parent x live same
    have child : x ∈ d.children p :=
      (mem_children h.ascending).mpr ⟨UInt64.le_of_lt less, live, parent⟩
    have siblings : d.children p = d'.children p := by
      by_cases top : p = root
      · rw [top, first]
      · exact others p ((mem_liveIds h.ascending).mpr livePar) top
    rw [siblings] at child
    rw [parent, ((mem_children h'.ascending).mp child).2.2]

end Branching

private theorem Rooted.tip_mem (h : d.Rooted root)
    (states : (root :: rows.map Row.state).Perm d.liveIds) :
    ∃ tip ∈ root :: rows.map Row.state, d.tip = some tip := by
  obtain ⟨tip, isTip, live⟩ := h.liveTip
  exact ⟨tip, states.mem_iff.mpr ((mem_liveIds h.ascending).mpr live), isTip⟩

private theorem Rooted.tip_eq (h : d.Rooted root) (h' : d'.Rooted root)
    (states : (root :: rows.map Row.state).Perm d.liveIds)
    (states' : (root :: rows.map Row.state).Perm d'.liveIds)
    (marked : ∀ r ∈ rows, d.tip = some r.state ↔ d'.tip = some r.state) : d.tip = d'.tip := by
  obtain ⟨tip, mem, isTip⟩ := h.tip_mem states
  obtain ⟨tip', mem', isTip'⟩ := h'.tip_mem states'
  have marked : ∀ x ∈ rows.map Row.state, d.tip = some x ↔ d'.tip = some x :=
    List.forall_mem_map.mpr marked
  rcases List.mem_cons.mp mem with rfl | drawn
  · rcases List.mem_cons.mp mem' with rfl | drawn'
    · rw [isTip, isTip']
    · rw [isTip', (marked tip' drawn').mpr isTip']
  · rw [isTip, (marked tip drawn).mp isTip]

private theorem EditedBy.rooted (edited : EditedBy Orderly d)
    (bounded : ∀ e ∈ d.entries, e.id < StateId.greatest) (hasRoot : d.root.isSome = true) :
    ∃ root, d.Rooted root := by
  rcases edited.blank_or_tree bounded with blank | rooted
  · simp [blank.noRoot] at hasRoot
  · exact rooted

/--
Two documents with a root that came about by orderly edits, with numbers left, are the same tree if
they are drawn the same, whatever their sentences are: they have the same root, the same live states
with the same parents, and the same tip. The drawing has one line for each live state.
-/
theorem render_shows_tree (edited : EditedBy Orderly d) (edited' : EditedBy Orderly d')
    (bounded : ∀ e ∈ d.entries, e.id < StateId.greatest)
    (bounded' : ∀ e ∈ d'.entries, e.id < StateId.greatest)
    (hasRoot : d.root.isSome = true) (hasRoot' : d'.root.isSome = true)
    (same : d.render = d'.render) :
    d.root = d'.root ∧ d.liveIds = d'.liveIds ∧
      (∀ x, d.isLive x = true → d.parentOf x = d'.parentOf x) ∧ d.tip = d'.tip ∧
      (Text.lines d.render.toList).length = d.liveIds.length ∧
      ∃ root, ∃ rows : List Row, d.root = some root ∧
        d.render = String.ofList (rootLine root ++ rows.flatMap (Row.line d)) ∧
        (root :: rows.map Row.state).Perm d.liveIds := by
  obtain ⟨root, rooted⟩ := edited.rooted bounded hasRoot
  obtain ⟨root', rooted'⟩ := edited'.rooted bounded' hasRoot'
  obtain ⟨rows, draws, drawn, states⟩ := rooted.render_eq
  obtain ⟨rows', draws', drawn', states'⟩ := rooted'.render_eq
  have margins := draws.margins []
  have margins' := draws'.margins []
  rw [drawn, drawn', String.ofList_inj] at same
  obtain ⟨rfl, rfl, marked⟩ := eq_of_drawing margins margins' same
  obtain ⟨first, others⟩ := draws.children_eq draws'
  have sameIds : d.liveIds = d'.liveIds :=
    (states.symm.trans states').eq_of_pairwise (fun a b _ _ less greater => by grind)
      (liveIds_ascending rooted.ascending) (liveIds_ascending rooted'.ascending)
  have drawnChildren : ∀ x ∈ d.liveIds, x ≠ root → d.children x = d'.children x := by
    intro x mem ne
    obtain ⟨r, drawn, rfl⟩ := List.mem_map.mp (List.mem_of_ne_of_mem ne (states.mem_iff.mpr mem))
    exact others r drawn
  refine ⟨rooted.isRoot.trans rooted'.isRoot.symm, sameIds, fun x live => ?_,
    rooted.tip_eq rooted' states states' marked, ?_, root, rows, rooted.isRoot, drawn, states⟩
  · exact rooted.toBranching.parentOf_eq_of_children rooted'.toBranching first drawnChildren live
  · rw [drawn, String.toList_ofList, length_lines_drawing margins d root, ← states.length_eq]
    simp

/-- A document with a sentence that is cut, one that looks like a part of a drawing, and a dead
state. -/
def wordy : Document :=
  ⟨[⟨1, none, "", true⟩, ⟨2, some 1, "Lemma long : forall n m p, n + (m + p) = n + m + p.", true⟩,
    ⟨3, some 2, "│   └── ● 9 z.\nlate.", true⟩, ⟨4, some 3, "d.", false⟩], some 1, some 3, 5⟩

/-- The same tree with other sentences, without the dead state. -/
def reworded : Document :=
  ⟨[⟨1, none, "", true⟩, ⟨2, some 1, "Lemma long : forall n m p, n + (m + p) = n + p + m.", true⟩,
    ⟨3, some 2, "│   └── ● 9 z.", true⟩], some 1, some 3, 4⟩

private theorem edited_wordy : EditedBy Orderly wordy := by
  have rooted : EditedBy Orderly ⟨[⟨1, none, "", true⟩], some 1, some 1, 2⟩ :=
    EditedBy.new.to .init trivial (by decide)
  have first := EditedBy.edit rooted
    (.add none none "Lemma long : forall n m p, n + (m + p) = n + m + p.") trivial
  have second := EditedBy.edit first (.add none none "│   └── ● 9 z.\nlate.") trivial
  have third := EditedBy.edit second (.add none none "d.") trivial
  exact third.to (.cancel 4) trivial (by decide)

private theorem edited_reworded : EditedBy Orderly reworded := by
  have rooted : EditedBy Orderly ⟨[⟨1, none, "", true⟩], some 1, some 1, 2⟩ :=
    EditedBy.new.to .init trivial (by decide)
  have first := EditedBy.edit rooted
    (.add none none "Lemma long : forall n m p, n + (m + p) = n + p + m.") trivial
  exact first.to (.add none none "│   └── ● 9 z.") trivial (by decide)

theorem render_shows_tree_reworded :
    wordy.render = reworded.render ∧ wordy.textOf 2 ≠ reworded.textOf 2 ∧
      wordy.liveIds = reworded.liveIds ∧ wordy.tip = reworded.tip ∧
      (Text.lines wordy.render.toList).length = 3 := by
  have same : wordy.render = reworded.render := by decide +kernel
  obtain ⟨-, ids, -, tip, lines, -⟩ := render_shows_tree edited_wordy edited_reworded
    (by decide) (by decide) rfl rfl same
  exact ⟨same, by decide, ids, tip, lines⟩

end Document

end ProofHost
