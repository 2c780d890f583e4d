import ProofHost.Document.Render
import ProofHost.Proofs.Document.Lineage

/-!
The drawing of a document as the lines that its recursion visits, without any bound on the depth. A
state is drawn only under one with a smaller number, so that the recursion ends; and as each state
has one parent, no state is drawn twice. That the bound is never met follows: there are no more
lines than records.
-/

set_option autoImplicit false

namespace ProofHost

namespace Document

variable {d : Document} {id root top x a b : StateId} {ids : List StateId} {margin : List Char}

/-- A line of a drawing: its margin, whether its state is the last of its siblings, and the
state. -/
structure Row where
  margin : List Char
  isLast : Bool
  state : StateId
  deriving DecidableEq, Repr

def Row.line (d : Document) (r : Row) : List Char := nodeLine d r.margin r.isLast r.state

/-- To draw some siblings and all that stands on them comes to an end, with the given lines. -/
inductive Draws (d : Document) : List Char → List StateId → List Row → Prop
  | done (margin : List Char) : Draws d margin [] []
  | next {margin : List Char} {id : StateId} {rest : List StateId} {below after : List Row}
    (inner : Draws d (margin ++ (if rest.isEmpty then "    " else "│   ").toList)
      (d.children id) below)
    (later : Draws d margin rest after) :
    Draws d margin (id :: rest) (⟨margin, rest.isEmpty, id⟩ :: (below ++ after))

variable {rows : List Row}

private theorem Draws.branchLines_eq (h : d.Draws margin ids rows) {fuel : Nat}
    (enough : 2 * rows.length ≤ fuel) :
    branchLines d margin fuel ids = rows.flatMap (Row.line d) := by
  induction h generalizing fuel with
  | done => simp [branchLines]
  | @next margin id rest below after _ _ ih ih' =>
    simp only [List.length_cons, List.length_append] at enough
    obtain ⟨fuel, rfl⟩ : ∃ n, fuel = n + 2 := ⟨fuel - 2, by omega⟩
    have inner : branchLines d _ fuel (d.children id) = below.flatMap (Row.line d) := ih (by omega)
    have later : branchLines d margin (fuel + 1) rest = after.flatMap (Row.line d) := ih' (by omega)
    rw [branchLines, subtreeLines, inner, later]
    simp [Row.line]

theorem mem_children (sorted : Ascending d.entries) :
    x ∈ d.children id ↔ id ≤ x ∧ d.isLive x = true ∧ d.parentOf x = some id := by
  simp only [children, List.mem_map, List.mem_filter, Bool.and_eq_true, decide_eq_true_eq,
    beq_iff_eq]
  constructor
  · rintro ⟨e, ⟨mem, ⟨le, live⟩, parent⟩, rfl⟩
    exact ⟨le, isLive_and_parentOf_of_mem sorted mem live parent⟩
  · rintro ⟨le, live, parent⟩
    obtain ⟨e, found, isLive⟩ := isLive_iff.mp live
    obtain ⟨mem, rfl⟩ := mem_of_find? found
    exact ⟨e, ⟨mem, ⟨le, isLive⟩, by simpa [parentOf, found] using parent⟩, rfl⟩

private theorem nodup_children (sorted : Ascending d.entries) : (d.children id).Nodup :=
  List.pairwise_map.mpr ((sorted.filter _).imp UInt64.ne_of_lt)

def GrownFrom (d : Document) (top x : StateId) : Prop := x = top ∨ d.GrownOn top x

theorem grownOn_iff : d.GrownOn top x ↔
    ∃ p, d.GrownFrom top p ∧ d.isLive x = true ∧ d.parentOf x = some p ∧ p < x := by
  constructor
  · intro h
    cases h with
    | child live parent less => exact ⟨top, Or.inl rfl, live, parent, less⟩
    | step below live parent less => exact ⟨_, Or.inr below, live, parent, less⟩
  · rintro ⟨p, rfl | below, live, parent, less⟩
    · exact .child live parent less
    · exact .step below live parent less

private theorem GrownOn.of_grownFrom (h : d.GrownOn top a) (grown : d.GrownFrom a x) :
    d.GrownOn top x := by
  rcases grown with rfl | grown
  · exact h
  · induction grown with
    | child live parent less => exact .step h live parent less
    | step _ live parent less ih => exact .step ih live parent less

private theorem not_grownOn_sibling (parentA : d.parentOf a = some top)
    (parentB : d.parentOf b = some top)
    (less : top < a) : ¬ d.GrownOn a b := by
  intro grown
  obtain ⟨p, from_a, -, parent, -⟩ := grownOn_iff.mp grown
  obtain rfl := Option.some.inj (parentB.symm.trans parent)
  rcases from_a with rfl | grown
  · exact UInt64.lt_irrefl _ less
  · exact UInt64.lt_irrefl _ (UInt64.lt_trans less grown.lt)

private theorem eq_of_grownFrom (parentA : d.parentOf a = some top)
    (parentB : d.parentOf b = some top)
    (lessA : top < a) (lessB : top < b) (grownA : d.GrownFrom a x) (grownB : d.GrownFrom b x) :
    a = b := by
  rcases grownA with rfl | grownA
  · rcases grownB with same | grownB
    · exact same
    · exact absurd grownB (not_grownOn_sibling parentB parentA lessB)
  · have parent_from_b {p x : StateId} (parent : d.parentOf x = some p) (grown : d.GrownOn a x)
        (grownB : d.GrownFrom b x) : d.GrownFrom b p := by
      rcases grownB with rfl | grownB
      · exact absurd grown (not_grownOn_sibling parentA parentB lessA)
      · obtain ⟨q, from_b, -, isParent, -⟩ := grownOn_iff.mp grownB
        exact Option.some.inj (isParent.symm.trans parent) ▸ from_b
    induction grownA with
    | child live parent less =>
      rcases parent_from_b parent (.child live parent less) grownB with same | grown
      · exact same
      · exact absurd grown (not_grownOn_sibling parentB parentA lessB)
    | step below live parent less ih =>
      exact ih (parent_from_b parent (.step below live parent less) grownB)

section Drawing

variable (sorted : Ascending d.entries)
  (proper : ∀ x, d.isLive x = true → d.parentOf x ≠ some x)

include sorted proper

private theorem grownOn_of_mem_children (mem : x ∈ d.children id) : d.GrownOn id x := by
  obtain ⟨le, live, parent⟩ := (mem_children sorted).mp mem
  have ne : x ≠ id := by
    rintro rfl
    exact proper x live parent
  exact .child live parent (by grind)

private theorem forall_mem_children (id : StateId) :
    ∀ x ∈ d.children id, d.parentOf x = some id ∧ id < x :=
  fun _ mem =>
    ⟨((mem_children sorted).mp mem).2.2, (grownOn_of_mem_children sorted proper mem).lt⟩

private theorem exists_draws (margin : List Char) (ids : List StateId) :
    ∃ rows, d.Draws margin ids rows := by
  -- The induction is on how many numbers lie above all the siblings.
  suffices bounded : ∀ n : Nat, ∀ margin ids, (∀ x ∈ ids, 2 ^ 64 - x.toNat < n) →
      ∃ rows, d.Draws margin ids rows from
    bounded (2 ^ 64 + 1) margin ids fun x _ => by omega
  intro n
  induction n with
  | zero =>
    intro margin ids few
    cases ids with
    | nil => exact ⟨[], .done margin⟩
    | cons x rest => exact absurd (few x List.mem_cons_self) (Nat.not_lt_zero _)
  | succ n ih =>
    intro margin ids few
    induction ids with
    | nil => exact ⟨[], .done margin⟩
    | cons x rest ihRest =>
      obtain ⟨first, others⟩ := List.forall_mem_cons.mp few
      obtain ⟨after, later⟩ := ihRest others
      have inside : ∀ y ∈ d.children x, 2 ^ 64 - y.toNat < n := by
        intro y mem
        have less := UInt64.lt_iff_toNat_lt.mp (forall_mem_children sorted proper x y mem).2
        have := y.toNat_lt
        omega
      obtain ⟨below, inner⟩ := ih _ (d.children x) inside
      exact ⟨_, .next inner later⟩

private theorem Draws.grownFrom (h : d.Draws margin ids rows) :
    ∀ r ∈ rows, ∃ y ∈ ids, d.GrownFrom y r.state := by
  induction h with
  | done => exact List.forall_mem_nil _
  | @next margin id rest below after _ _ ih ih' =>
    refine List.forall_mem_cons.mpr ⟨⟨id, List.mem_cons_self, Or.inl rfl⟩, fun r mem => ?_⟩
    rcases List.mem_append.mp mem with mem | mem
    · obtain ⟨y, child, grown⟩ := ih r mem
      have onSibling := grownOn_of_mem_children sorted proper child
      exact ⟨id, List.mem_cons_self, Or.inr (onSibling.of_grownFrom grown)⟩
    · obtain ⟨y, sibling, grown⟩ := ih' r mem
      exact ⟨y, List.mem_cons_of_mem _ sibling, grown⟩

theorem Draws.grownOn (h : d.Draws margin (d.children id) rows) :
    ∀ x ∈ rows.map Row.state, d.GrownOn id x := by
  refine List.forall_mem_map.mpr fun r mem => ?_
  obtain ⟨y, child, grown⟩ := h.grownFrom sorted proper r mem
  exact (grownOn_of_mem_children sorted proper child).of_grownFrom grown

private theorem Draws.nodup (h : d.Draws margin ids rows) (once : ids.Nodup)
    (siblings : ∀ x ∈ ids, d.parentOf x = some top ∧ top < x) : (rows.map Row.state).Nodup := by
  induction h generalizing top with
  | done => exact List.nodup_nil
  | @next margin id rest below after inner later ih ih' =>
    obtain ⟨first, once⟩ := List.nodup_cons.mp once
    obtain ⟨⟨parent, less⟩, siblings⟩ := List.forall_mem_cons.mp siblings
    have belowOnce : (below.map Row.state).Nodup :=
      ih (nodup_children sorted) (forall_mem_children sorted proper id)
    have afterOnce := ih' once siblings
    have grown := inner.grownOn sorted proper
    -- What is drawn later grows from another sibling than this one.
    have apart : ∀ r ∈ after, ¬ d.GrownFrom id r.state := by
      intro r mem fromFirst
      obtain ⟨y, sibling, fromOther⟩ := later.grownFrom sorted proper r mem
      obtain ⟨otherParent, otherLess⟩ := siblings y sibling
      have same := eq_of_grownFrom parent otherParent less otherLess fromFirst fromOther
      exact first (same ▸ sibling)
    rw [List.map_cons, List.map_append, List.nodup_cons, List.mem_append, not_or, List.nodup_append]
    refine ⟨⟨fun mem => UInt64.lt_irrefl _ (grown id mem).lt, fun mem => ?_⟩, belowOnce, afterOnce,
      fun x mem y mem' same => ?_⟩
    · obtain ⟨r, mem, same⟩ := List.mem_map.mp mem
      exact apart r mem (Or.inl same)
    · obtain ⟨r, drawn, rfl⟩ := List.mem_map.mp mem'
      exact apart r drawn (Or.inr (same ▸ grown x mem))

end Drawing

def rootLine (root : StateId) : List Char := (toString root.toNat).toList ++ ['\n']

theorem render_eq_rows (sorted : Ascending d.entries)
    (proper : ∀ x, d.isLive x = true → d.parentOf x ≠ some x) (isRoot : d.root = some root)
    (rootRecorded : d.wasIssued root = true) :
    ∃ rows, d.Draws [] (d.children root) rows ∧
      d.render = String.ofList (rootLine root ++ rows.flatMap (Row.line d)) ∧
      (root :: rows.map Row.state).Nodup := by
  obtain ⟨rows, draws⟩ := exists_draws sorted proper [] (d.children root)
  have grown := draws.grownOn sorted proper
  have drawnOnce : (rows.map Row.state).Nodup :=
    draws.nodup sorted proper (nodup_children sorted) (forall_mem_children sorted proper root)
  have once : (root :: rows.map Row.state).Nodup :=
    List.nodup_cons.mpr ⟨fun mem => UInt64.lt_irrefl _ (grown root mem).lt, drawnOnce⟩
  have recorded : ∀ x ∈ root :: rows.map Row.state, d.wasIssued x = true :=
    List.forall_mem_cons.mpr ⟨rootRecorded, fun x mem =>
      wasIssued_of_isLive (grown x mem).builtOn.isLive⟩
  have enough : 2 * rows.length ≤ 2 * d.entries.length + 1 := by
    have := length_le_of_recorded once recorded
    simp only [List.length_cons, List.length_map] at this
    omega
  refine ⟨rows, draws, ?_, once⟩
  simp only [Document.render, isRoot, draws.branchLines_eq enough, rootLine]
  simp

private theorem Descended.render {line : List StateId} (h : d.Descended line)
    (sorted : Ascending d.entries)
    (isRoot : d.root = some root) :
    ∃ rows, d.Draws [] (d.children root) rows ∧
      d.render = String.ofList (rootLine root ++ rows.flatMap (Row.line d)) ∧
      (root :: rows.map Row.state).Nodup :=
  render_eq_rows sorted (fun x live => h.lineage.parentOf_ne_self (h.live x live)) isRoot
    (h.lineage.root_recorded isRoot)

/--
In every document that follows a kernel, whatever the kernel reports: the path of each live state is
found by a climb that comes to an end, and it leads from the root to the state over parents without
meeting a state twice; and the drawing comes to an end and has one line each for states that are all
different, in which the state's own number stands before its sentence.
-/
theorem paths_and_drawing_end (edited : EditedBy Told d) :
    (∀ id, d.isLive id = true → ∃ root up, d.root = some root ∧ d.Climbs id up ∧
      d.path id = .ok up.reverse ∧ d.IsWay root id up.reverse) ∧
    (d.root = none → d.render = "") ∧
    ∀ root, d.root = some root → ∃ rows, d.Draws [] (d.children root) rows ∧
      d.render = String.ofList ((toString root.toNat).toList ++ '\n' :: rows.flatMap (Row.line d)) ∧
      (∀ r ∈ rows, r.line d = r.margin ++ (if r.isLast then "└── " else "├── ").toList ++
        [if d.tip = some r.state then '●' else '○', ' '] ++ (toString r.state.toNat).toList ++
        ' ' :: excerpt ((d.textOf r.state).getD "") ++ ['\n']) ∧
      (root :: rows.map Row.state).Nodup := by
  obtain ⟨line, descended⟩ := edited.descended
  refine ⟨fun id live => descended.path live, fun noRoot => by rw [render, noRoot], ?_⟩
  intro root isRoot
  obtain ⟨rows, draws, drawn, once⟩ := descended.render edited.ascending isRoot
  rw [rootLine, List.append_assoc, List.singleton_append] at drawn
  exact ⟨rows, draws, drawn, fun _ _ => rfl, once⟩

/-- A document that was started over with a number it had recorded, in which parents have greater
numbers than what stands on them and one of them is dead. -/
def unruly : Document :=
  ⟨[⟨1, some 3, "d.", true⟩, ⟨2, some 4, "b.", true⟩, ⟨3, some 2, "c.", false⟩,
    ⟨4, none, "", true⟩, ⟨9, none, "", false⟩, ⟨11, some 4, "e.", true⟩], some 4, some 11, 12⟩

private theorem told_unruly : EditedBy Told unruly := by
  have rooted : EditedBy Told ⟨[⟨9, none, "", true⟩], some 9, some 9, 10⟩ :=
    EditedBy.new.to (.reset 9) trivial (by decide)
  have inserted : EditedBy Told
      ⟨[⟨4, some 9, "a.", true⟩, ⟨9, none, "", true⟩], some 9, some 4, 10⟩ :=
    rooted.to (.insert 4 none none "a.") trivial (by decide)
  have again : EditedBy Told
      ⟨[⟨4, none, "", true⟩, ⟨9, none, "", false⟩], some 4, some 4, 10⟩ :=
    inserted.to (.reset 4) trivial (by decide)
  have second : EditedBy Told
      ⟨[⟨2, some 4, "b.", true⟩, ⟨4, none, "", true⟩, ⟨9, none, "", false⟩], some 4, some 2, 10⟩ :=
    again.to (.insert 2 none none "b.") trivial (by decide)
  have third : EditedBy Told
      ⟨[⟨2, some 4, "b.", true⟩, ⟨3, some 2, "c.", true⟩, ⟨4, none, "", true⟩,
        ⟨9, none, "", false⟩], some 4, some 3, 10⟩ :=
    second.to (.insert 3 none none "c.") trivial (by decide)
  have fourth : EditedBy Told
      ⟨[⟨1, some 3, "d.", true⟩, ⟨2, some 4, "b.", true⟩, ⟨3, some 2, "c.", true⟩,
        ⟨4, none, "", true⟩, ⟨9, none, "", false⟩], some 4, some 1, 10⟩ :=
    third.to (.insert 1 none none "d.") trivial (by decide)
  have cancelled : EditedBy Told
      ⟨[⟨1, some 3, "d.", true⟩, ⟨2, some 4, "b.", true⟩, ⟨3, some 2, "c.", false⟩,
        ⟨4, none, "", true⟩, ⟨9, none, "", false⟩], some 4, some 1, 10⟩ :=
    fourth.to (.cancel 3) trivial (by decide)
  exact cancelled.to (.insert 11 none (some 4) "e.") trivial (by decide)

theorem paths_and_drawing_end_unruly :
    EditedBy Told unruly ∧ unruly.path 1 = .ok [4, 2, 3, 1] ∧ unruly.IsWay 4 1 [4, 2, 3, 1] ∧
      ∃ rows, unruly.Draws [] [11] rows ∧ (4 :: rows.map Row.state).Nodup := by
  obtain ⟨paths, -, drawing⟩ := paths_and_drawing_end told_unruly
  obtain ⟨root, up, isRoot, -, path, way⟩ := paths 1 (by decide)
  obtain rfl : 4 = root := Option.some.inj isRoot
  have found : unruly.path 1 = .ok [4, 2, 3, 1] := by decide
  obtain ⟨rows, draws, -, -, once⟩ := drawing 4 rfl
  rw [Except.ok.inj (path.symm.trans found)] at way
  exact ⟨told_unruly, found, way, rows, draws, once⟩

end Document

end ProofHost
