import Mathlib.Data.List.Chain
import Mathlib.Data.List.Nodup
import ProofHost.Proofs.Document.Continued
import ProofHost.Proofs.Document.Refusal
import ProofHost.Proofs.Session.Commands

/-!
A document that follows a kernel, whatever the kernel reports. Numbers need not grow along a branch
then, and a document can be started over with a number that is recorded already. What orders the
states is when they were recorded: since the document was last started over, each of them was put on
one that was there before it. So the way up from a live state ends at the root and meets no state
twice.
-/

set_option autoImplicit false

namespace ProofHost

namespace Document

variable {d d' : Document} {root id p x : StateId} {line up : List StateId}

/-- The edits with which a document follows what a kernel reports, going back after failures
included. -/
def Told (_ : Document) : Edit → Prop
  | .reset _ | .insert .. | .cancel _ | .rollback .. => True
  | .init | .add .. => False

private theorem track_cases (d : Document) (c : Command) (a : Answer) :
    d.track c a = d ∨ ∃ e, d.Told e ∧ d.track c a = d.edit e := by
  unfold track
  split
  · exact Or.inr ⟨.reset _, trivial, rfl⟩
  · exact Or.inr ⟨.insert _ _ _ _, trivial, rfl⟩
  · exact Or.inr ⟨.cancel _, trivial, rfl⟩
  · exact Or.inr ⟨.rollback _ _, trivial, rfl⟩
  · exact Or.inl rfl

private theorem EditedBy.track (edited : EditedBy Told d) (c : Command) (a : Answer) :
    EditedBy Told (d.track c a) := by
  rcases d.track_cases c a with same | ⟨e, told, same⟩
  · rw [same]
    exact edited
  · rw [same]
    exact .edit edited e told

private theorem EditedBy.trackAll (edited : EditedBy Told d) (c : Command) (answers : List Answer) :
    EditedBy Told (answers.foldl (fun d a => d.track c a) d) := by
  induction answers generalizing d with
  | nil => exact edited
  | cons a answers ih => exact ih (edited.track c a)

theorem told_command {κ : Type} [Kernel κ] {s : Session κ} (told : EditedBy Told s.document)
    (c : Command) : EditedBy Told (s.command c).2.document := by
  by_cases served : c.validate = .ok () ∧ s.booted = true
  · rw [Session.command_eq served.1 served.2]
    exact told.trackAll c _
  · have same : (s.command c).2.document = s.document := by
      unfold Session.command
      split
      · rfl
      · rename_i valid
        have stopped : s.booted = false := by
          refine Bool.eq_false_iff.mpr fun booted => served ⟨valid, booted⟩
        simp [stopped]
    rw [same]
    exact told

/-- The states that were recorded since the document was last started over, the latest first. -/
inductive Lineage (d : Document) : List StateId → Prop
  | none (noRoot : d.root = none) : Lineage d []
  | root {root : StateId} (isRoot : d.root = some root) (recorded : d.wasIssued root = true)
    (topmost : d.parentOf root = none) : Lineage d [root]
  | child {p x : StateId} {line : List StateId} (older : Lineage d line) (new : x ∉ line)
    (parent : d.parentOf x = some p) (member : p ∈ line) : Lineage d (x :: line)

namespace Lineage

private theorem recorded (h : d.Lineage line) : ∀ x ∈ line, d.wasIssued x = true := by
  induction h with
  | none => exact List.forall_mem_nil _
  | root _ recorded _ => exact List.forall_mem_singleton.mpr recorded
  | child _ _ parent _ ih => exact List.forall_mem_cons.mpr ⟨wasIssued_of_parentOf parent, ih⟩

theorem root_recorded (h : d.Lineage line) (isRoot : d.root = some root) :
    d.wasIssued root = true := by
  induction h with
  | none noRoot => simp [noRoot] at isRoot
  | root same recorded _ => exact Option.some.inj (isRoot.symm.trans same) ▸ recorded
  | child _ _ _ _ ih => exact ih

private theorem nodup (h : d.Lineage line) : line.Nodup := by
  induction h with
  | none => exact List.nodup_nil
  | root => exact List.pairwise_singleton _ _
  | child _ new _ _ ih => exact List.nodup_cons.mpr ⟨new, ih⟩

theorem parentOf_ne_self (h : d.Lineage line) (mem : x ∈ line) : d.parentOf x ≠ some x := by
  induction h with
  | none => cases mem
  | root _ _ topmost =>
    rw [List.mem_singleton.mp mem, topmost]
    exact nofun
  | child _ new parent member ih =>
    rcases List.mem_cons.mp mem with rfl | mem
    · intro self
      exact new (Option.some.inj (parent.symm.trans self) ▸ member)
    · exact ih mem

private theorem continued (h : d.Lineage line) (later : d.Continued d') : d'.Lineage line := by
  induction h with
  | none noRoot => exact .none (later.root.trans noRoot)
  | root isRoot recorded topmost =>
    exact .root (later.root.trans isRoot) (later.recorded _ recorded)
      ((later.retained.parentOf_eq recorded).trans topmost)
  | child _ new parent member ih =>
    have recorded := wasIssued_of_parentOf parent
    exact .child ih new ((later.retained.parentOf_eq recorded).trans parent) member

end Lineage

/-- All live states were recorded since the document was last started over. -/
structure Descended (d : Document) (line : List StateId) : Prop where
  lineage : d.Lineage line
  live : ∀ x, d.isLive x = true → x ∈ line

namespace Descended

private theorem reset (d : Document) (id : StateId) : (d.reset id).Descended [id] where
  lineage := .root rfl (wasIssued_of_isLive (isLive_reset.mpr rfl))
    (by rw [parentOf_reset, if_pos rfl])
  live x live := List.mem_singleton.mpr (isLive_reset.mp live)

private theorem continued (h : d.Descended line) (later : d.Continued d')
    (live : ∀ x, d'.isLive x = true → d.isLive x = true) : d'.Descended line :=
  ⟨h.lineage.continued later, fun x alive => h.live x (live x alive)⟩

private theorem attach (h : d.Descended line) (fresh : d.wasIssued id = false) (member : p ∈ line)
    (text : String) : (d.attach id p text).Descended (id :: line) where
  lineage := by
    have new : id ∉ line := by
      intro mem
      rw [h.lineage.recorded id mem] at fresh
      cases fresh
    exact .child (h.lineage.continued (.attach fresh p text)) new
      (by rw [parentOf_attach, if_pos rfl]) member
  live x live := by
    rcases isLive_attach.mp live with rfl | live
    · exact List.mem_cons_self
    · exact List.mem_cons_of_mem _ (h.live x live)

private theorem insert (h : d.Descended line) (id : StateId) (editAt parent : Option StateId)
    (text : String) : ∃ line, (d.insert id editAt parent text).2.Descended line := by
  rcases insert_cases d id editAt parent text with ⟨e, refused⟩ | ⟨p, fresh, resolved, done⟩
  · rw [refused]
    exact ⟨line, h⟩
  · have member : p ∈ line := h.live p (isLive_of_resolveParent resolved).2.1
    have cut : (d.cut editAt).Descended line :=
      h.continued (.cut d editAt) fun x => isLive_of_cut
    have bumped : ((d.cut editAt).bump id).Descended line :=
      cut.continued (.recount _ _) fun _ live => live
    rw [done]
    exact ⟨_, bumped.attach ((wasIssued_cut d editAt id).trans fresh) member text⟩

private theorem edit (h : d.Descended line) {e : Edit} (told : d.Told e) :
    ∃ line, (d.edit e).Descended line := by
  cases e with
  | init => exact told.elim
  | add editAt parent text => exact told.elim
  | reset id => exact ⟨[id], reset d id⟩
  | insert id editAt parent text => exact h.insert id editAt parent text
  | cancel id =>
    refine ⟨line, ?_⟩
    rcases cancel_cases d id with ⟨e, refused⟩ | ⟨-, -, -, done⟩
    · rw [Document.edit, refused]
      exact h
    · rw [Document.edit, done]
      exact h.continued (.prune d id) fun x live => (isLive_prune.mp live).1
  | rollback good bad =>
    refine ⟨line, h.continued (.rollback d good bad) fun x live => ?_⟩
    obtain ⟨dead, tip, done⟩ := rollback_eq_killed d good bad
    rw [Document.edit, done] at live
    exact (isLive_killed.mp live).1

end Descended

theorem EditedBy.descended (edited : EditedBy Told d) : ∃ line, d.Descended line := by
  induction edited with
  | new => exact ⟨[], .none rfl, nofun⟩
  | blank => exact ⟨[], .none rfl, nofun⟩
  | edit _ _ told ih =>
    obtain ⟨line, descended⟩ := ih
    exact descended.edit told

/-- To follow parents up from a state comes to an end, after the given states. -/
inductive Climbs (d : Document) : StateId → List StateId → Prop
  | top {x : StateId} (topmost : d.parentOf x = none) : Climbs d x [x]
  | up {p x : StateId} {above : List StateId} (parent : d.parentOf x = some p)
    (further : Climbs d p above) : Climbs d x (x :: above)

/-- States from the root to a given one, each put on the one before it, and none of them twice. -/
structure IsWay (d : Document) (root id : StateId) (way : List StateId) : Prop where
  starts : way.head? = some root
  ends : way.getLast? = some id
  once : way.Nodup
  linked : way.IsChain fun p x => d.parentOf x = some p

namespace Climbs

private theorem head? (h : d.Climbs x up) : up.head? = some x := by
  cases h <;> rfl

private theorem linked (h : d.Climbs x up) :
    up.reverse.IsChain fun p x => d.parentOf x = some p := by
  rw [List.isChain_reverse]
  induction h with
  | top => exact List.isChain_singleton _
  | up parent further ih =>
    refine List.isChain_cons.mpr ⟨fun y first => ?_, ih⟩
    rw [further.head?] at first
    exact Option.some.inj first ▸ parent

theorem climb_eq (h : d.Climbs x up) {fuel : Nat} (enough : up.length ≤ fuel + 1) :
    d.climb fuel x = some up := by
  induction h generalizing fuel with
  | top topmost => cases fuel <;> simp [climb, topmost]
  | @up p x above parent further ih =>
    cases fuel with
    | zero =>
      have none_above : above = [] := by simpa using enough
      have first := further.head?
      simp [none_above] at first
    | succ fuel =>
      rw [climb, parent]
      simp only [ih (by simpa using enough), Option.map_some]

end Climbs

private theorem Lineage.climbs (h : d.Lineage line) (mem : x ∈ line) :
    ∃ root up, d.root = some root ∧ d.Climbs x up ∧ up.Sublist line ∧ up.getLast? = some root := by
  -- The parent was recorded earlier, so that the rest of the way lies in the rest of the line.
  induction h generalizing x with
  | none => cases mem
  | @root root isRoot _ topmost =>
    rw [List.mem_singleton.mp mem]
    exact ⟨root, [root], isRoot, .top topmost, List.Sublist.refl _, rfl⟩
  | @child p y line _ _ parent member ih =>
    rcases List.mem_cons.mp mem with rfl | mem
    · obtain ⟨root, up, isRoot, further, within, last⟩ := ih member
      have longer : (x :: up).getLast? = some root := by simp [List.getLast?_cons, last]
      exact ⟨root, x :: up, isRoot, .up parent further, within.cons_cons x, longer⟩
    · obtain ⟨root, up, isRoot, climbs, within, last⟩ := ih mem
      exact ⟨root, up, isRoot, climbs, within.cons y, last⟩

theorem length_le_of_recorded {ids : List StateId} (nodup : ids.Nodup)
    (recorded : ∀ x ∈ ids, d.wasIssued x = true) : ids.length ≤ d.entries.length := by
  have within : ids ⊆ d.entries.map (·.id) := by
    intro x mem
    obtain ⟨e, mem, same⟩ := exists_mem_of_wasIssued (recorded x mem)
    exact List.mem_map.mpr ⟨e, mem, same⟩
  simpa using nodup.length_le_of_subset within

theorem Descended.path (h : d.Descended line) (live : d.isLive x = true) :
    ∃ root up, d.root = some root ∧ d.Climbs x up ∧ d.path x = .ok up.reverse ∧
      d.IsWay root x up.reverse := by
  obtain ⟨root, up, isRoot, climbs, within, last⟩ := h.lineage.climbs (h.live x live)
  have nodup : up.Nodup := within.nodup h.lineage.nodup
  have enough : up.length ≤ d.entries.length :=
    length_le_of_recorded nodup fun y mem => h.lineage.recorded y (within.subset mem)
  have climbed := climbs.climb_eq (Nat.le_succ_of_le enough)
  refine ⟨root, up, isRoot, climbs, ?_, ?_, ?_, List.nodup_reverse.mpr nodup, climbs.linked⟩
  · exact path_of_climb isRoot live climbed
  · rw [List.head?_reverse, last]
  · rw [List.getLast?_reverse, climbs.head?]

end Document

end ProofHost
