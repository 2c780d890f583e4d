import Mathlib.Logic.Relation
import ProofHost.Proofs.Document.Orderly

/-!
To cancel a state in a document whose states come in order: all that stands on it goes, and nothing
else. An edit in the middle is the same as to cancel what was issued since, the latest state first,
and then to add the sentence; and to cancel a sentence that was just added leaves only its dead
record.
-/

set_option autoImplicit false

namespace ProofHost

namespace Document

variable {d : Document} {root id p start x : StateId} {text : String}

/-- The chain of parents that begins with a state passes through another one. -/
def StandsOn (d : Document) (x id : StateId) : Prop :=
  Relation.ReflTransGen (fun x p => d.parentOf x = some p) x id

private theorem BuiltOn.standsOn (below : d.BuiltOn id x) : d.StandsOn x id := by
  induction below with
  | child _ parent => exact .single parent
  | step _ _ parent ih => exact .head parent ih

/-- In a tree all parents on the way up are live, so that it does not matter whether the chain is
followed through live states only. -/
private theorem Branching.standsOn_iff (h : d.Branching root) (live : d.isLive x = true) :
    d.StandsOn x id ↔ x = id ∨ d.BuiltOn id x := by
  constructor
  · intro stands
    induction stands using Relation.ReflTransGen.head_induction_on with
    | refl => exact Or.inl rfl
    | @head x p parent _ ih =>
      have notRoot : x ≠ root := by
        rintro rfl
        simp [h.topmost] at parent
      obtain ⟨q, isParent, livePar, -⟩ := h.parent x live notRoot
      obtain rfl := Option.some.inj (isParent.symm.trans parent)
      rcases ih livePar with rfl | below
      · exact Or.inr (.child live parent)
      · exact Or.inr (.step below live parent)
  · rintro (rfl | below)
    · exact .refl
    · exact below.standsOn

private theorem Branching.mem_subtree_iff (h : d.Branching root) (live : d.isLive x = true) :
    x ∈ d.subtree id ↔ d.StandsOn x id := by
  rw [h.standsOn_iff live, Document.mem_subtree_iff h.ascending]
  exact or_congr_right ⟨GrownOn.builtOn, h.grownOn⟩

private theorem Rooted.cancel_eq (h : d.Rooted root) (live : d.isLive id = true) (ne : id ≠ root) :
    ∃ tip, (d.prune id).tip = some tip ∧ d.cancel id = (.ok tip, d.prune id) := by
  obtain ⟨tip, isTip, -⟩ := (h.prune live ne).liveTip
  have notRoot : d.root ≠ some id := by
    rw [h.isRoot]
    exact fun same => ne (Option.some.inj same).symm
  have done := Document.cancel_eq (by rw [h.isRoot]; rfl) live notRoot
  rw [isTip] at done
  exact ⟨tip, isTip, done⟩

private theorem ne_root_of_root_ne (isRoot : d.root = some root) (notRoot : d.root ≠ some id) :
    id ≠ root :=
  fun same => notRoot (same ▸ isRoot)

/--
In a document that orderly edits lead to, to cancel a live state that is not the root makes dead
exactly that state and the live states whose chain of parents passes through it. Nothing else of the
record changes, nor does the counter. A tip that is removed goes back to the parent of the cancelled
state, any other tip stays, and the tip is what is given.
-/
theorem cancel_removes_exactly_standing (edited : EditedBy Orderly d)
    (bounded : ∀ e ∈ d.entries, e.id < StateId.greatest) (live : d.isLive id = true)
    (notRoot : d.root ≠ some id) :
    (∀ x, (d.cancel id).2.isLive x = true ↔ d.isLive x = true ∧ ¬ d.StandsOn x id) ∧
    (∀ x, (d.cancel id).2.wasIssued x = d.wasIssued x ∧
      (d.cancel id).2.parentOf x = d.parentOf x ∧ (d.cancel id).2.textOf x = d.textOf x) ∧
    (d.cancel id).2.root = d.root ∧ (d.cancel id).2.next = d.next ∧
    ∃ before after, d.tip = some before ∧ d.isLive before = true ∧
      (d.StandsOn before id → d.parentOf id = some after) ∧
      (¬ d.StandsOn before id → after = before) ∧
      (d.cancel id).2.tip = some after ∧ (d.cancel id).1 = .ok after := by
  obtain ⟨root, rooted⟩ := (edited.numbered bounded).rooted_of_isLive live
  obtain ⟨after, isAfter, done⟩ := rooted.cancel_eq live (ne_root_of_root_ne rooted.isRoot notRoot)
  obtain ⟨before, isBefore, liveBefore⟩ := rooted.liveTip
  have removed : before ∈ d.subtree id ↔ d.StandsOn before id :=
    rooted.toBranching.mem_subtree_iff liveBefore
  have moved : (d.prune id).tip = if before ∈ d.subtree id then d.parentOf id else some before := by
    simp [prune, isBefore]
  rw [isAfter] at moved
  rw [done]
  refine ⟨fun x => ?_, fun x => ⟨wasIssued_killed, parentOf_prune, textOf_killed⟩, rfl, rfl,
    before, after, isBefore, liveBefore, fun stands => ?_, fun apart => ?_, isAfter, rfl⟩
  · rw [isLive_prune]
    exact and_congr_right fun live => not_congr (rooted.toBranching.mem_subtree_iff live)
  · rw [if_pos (removed.mpr stands)] at moved
    exact moved.symm
  · rw [if_neg fun mem => apart (removed.mp mem)] at moved
    exact Option.some.inj moved

/-- Two branches below the root. A sentence of the first was put in the place of another, and one
that stood on it was cancelled. -/
def revised : Document :=
  ⟨[⟨1, none, "", true⟩, ⟨2, some 1, "a.", true⟩, ⟨3, some 1, "b.", true⟩,
    ⟨4, some 2, "c.", false⟩, ⟨5, some 2, "d.", true⟩, ⟨6, some 5, "e.", false⟩], some 1, some 5, 7⟩

private theorem edited_revised : EditedBy Orderly revised := by
  have rooted : EditedBy Orderly ⟨[⟨1, none, "", true⟩], some 1, some 1, 2⟩ :=
    EditedBy.new.to .init trivial (by decide)
  have first : EditedBy Orderly
      ⟨[⟨1, none, "", true⟩, ⟨2, some 1, "a.", true⟩], some 1, some 2, 3⟩ :=
    rooted.to (.add none none "a.") trivial (by decide)
  have second : EditedBy Orderly
      ⟨[⟨1, none, "", true⟩, ⟨2, some 1, "a.", true⟩, ⟨3, some 1, "b.", true⟩], some 1, some 3, 4⟩ :=
    first.to (.add none (some 1) "b.") trivial (by decide)
  have below : EditedBy Orderly
      ⟨[⟨1, none, "", true⟩, ⟨2, some 1, "a.", true⟩, ⟨3, some 1, "b.", true⟩,
        ⟨4, some 2, "c.", true⟩], some 1, some 4, 5⟩ :=
    second.to (.add none (some 2) "c.") trivial (by decide)
  have replaced : EditedBy Orderly
      ⟨[⟨1, none, "", true⟩, ⟨2, some 1, "a.", true⟩, ⟨3, some 1, "b.", true⟩,
        ⟨4, some 2, "c.", false⟩, ⟨5, some 2, "d.", true⟩], some 1, some 5, 6⟩ :=
    below.to (.add (some 4) none "d.") trivial (by decide)
  have longer : EditedBy Orderly
      ⟨[⟨1, none, "", true⟩, ⟨2, some 1, "a.", true⟩, ⟨3, some 1, "b.", true⟩,
        ⟨4, some 2, "c.", false⟩, ⟨5, some 2, "d.", true⟩, ⟨6, some 5, "e.", true⟩], some 1, some 6, 7⟩ :=
    replaced.to (.add none none "e.") trivial (by decide)
  exact longer.to (.cancel 6) trivial (by decide)

theorem cancel_removes_exactly_standing_revised :
    EditedBy Orderly revised ∧ revised.StandsOn 5 2 ∧ (revised.cancel 2).2.isLive 5 = false ∧
      (revised.cancel 2).1 = .ok 1 ∧ (revised.cancel 2).2.liveIds = [1, 3] := by
  have stands : revised.StandsOn 5 2 := .single (by decide)
  have alive : revised.isLive 2 = true := by decide
  obtain ⟨live, -, -, -, before, after, isBefore, -, back, -, -, given⟩ :=
    cancel_removes_exactly_standing edited_revised (by decide) alive (by decide)
  obtain rfl : 5 = before := Option.some.inj isBefore
  obtain rfl : 1 = after := Option.some.inj (back stands)
  refine ⟨edited_revised, stands, Bool.eq_false_iff.mpr fun left => ?_, given, by decide⟩
  exact ((live 5).mp left).2 stands

/-- Cancel several states one after another, up to the first that is refused. -/
def cancelAll (d : Document) : List StateId → Except DocumentError Unit × Document
  | [] => (.ok (), d)
  | id :: ids =>
    match d.cancel id with
    | (.error e, d') => (.error e, d')
    | (.ok _, d') => cancelAll d' ids

private theorem Rooted.cancelAll_eq {ids : List StateId} (h : d.Rooted root) (below : root < start)
    (members : ∀ x, x ∈ ids ↔ d.isLive x = true ∧ start ≤ x)
    (descending : ids.Pairwise (· > ·)) :
    ∃ tip, d.cancelAll ids =
      (.ok (), { d with entries := kill (start ≤ ·) d.entries, tip := tip }) := by
  -- What is left of the list are the live states from the given one on, at every step.
  induction ids generalizing d with
  | nil =>
    have deadAlready : kill (start ≤ ·) d.entries = d.entries := by
      refine kill_eq_self fun e mem later => Bool.eq_false_iff.mpr fun live => ?_
      have isLive := isLive_iff.mpr ⟨e, find?_of_mem h.ascending mem, live⟩
      exact List.not_mem_nil ((members e.id).mpr ⟨isLive, by simpa using later⟩)
    exact ⟨d.tip, by rw [deadAlready, cancelAll]⟩
  | cons x ids ih =>
    obtain ⟨first, descending⟩ := List.pairwise_cons.mp descending
    obtain ⟨live, later⟩ := (members x).mp List.mem_cons_self
    have ne : x ≠ root := by grind
    have left : ∀ y, y ∈ ids ↔ (d.prune x).isLive y = true ∧ start ≤ y := by
      intro y
      rw [isLive_prune]
      constructor
      · intro mem
        obtain ⟨liveY, laterY⟩ := (members y).mp (List.mem_cons_of_mem _ mem)
        refine ⟨⟨liveY, fun removed => ?_⟩, laterY⟩
        have := le_of_mem_subtree removed
        have := first y mem
        grind
      · rintro ⟨⟨liveY, stays⟩, laterY⟩
        rcases List.mem_cons.mp ((members y).mpr ⟨liveY, laterY⟩) with rfl | mem
        · exact absurd (mem_subtree_self d y) stays
        · exact mem
    have covered : kill (start ≤ ·) (d.prune x).entries = kill (start ≤ ·) d.entries := by
      have upward : ∀ y ∈ d.subtree x, start ≤ y := fun y mem =>
        UInt64.le_trans later (le_of_mem_subtree mem)
      rw [Document.prune, kill_kill]
      congr 1
      funext y
      by_cases mem : y ∈ d.subtree x
      · simp [mem, upward y mem]
      · simp [mem]
    obtain ⟨next, -, done⟩ := h.cancel_eq live ne
    obtain ⟨tip, rest⟩ := ih (h.prune live ne) left descending
    refine ⟨tip, ?_⟩
    rw [cancelAll, done]
    simp only [rest, covered]
    rfl

private theorem resolveParent_edit (isRoot : d.root = some root) (live : d.isLive start = true)
    (parent : d.parentOf start = some p) (livePar : d.isLive p = true) :
    d.resolveParent (some start) none = .ok p := by
  simp [resolveParent, ensureLive_eq isRoot live, ensureLive_eq isRoot livePar, parent, bind,
    Except.bind, pure, Except.pure]

private theorem resolveParent_given (isRoot : d.root = some root) (live : d.isLive p = true) :
    d.resolveParent none (some p) = .ok p := by
  simp [resolveParent, ensureLive_eq isRoot live, bind, Except.bind, pure, Except.pure]

/--
In a document that orderly edits lead to, to add a sentence at a live state that is not the root
gives the same number and the same document in every part as to cancel, from the greatest down, all
live states from that one on, each of which is accepted, and then to add the sentence under the
parent that the state had.
-/
theorem add_at_edit_eq_cancelAll_add (edited : EditedBy Orderly d)
    (bounded : ∀ e ∈ d.entries, e.id < StateId.greatest) (live : d.isLive start = true)
    (notRoot : d.root ≠ some start) (text : String) :
    let cleared := d.cancelAll (d.liveIds.filter (start ≤ ·)).reverse
    ∃ p id, d.parentOf start = some p ∧ (d.add (some start) none text).1 = .ok id ∧
      cleared.1 = .ok () ∧ d.add (some start) none text = cleared.2.add none (some p) text := by
  intro cleared
  obtain ⟨root, rooted⟩ := (edited.numbered bounded).rooted_of_isLive live
  obtain ⟨p, parent, livePar, less⟩ :=
    rooted.parent start live (ne_root_of_root_ne rooted.isRoot notRoot)
  have below : root < start := by
    have := rooted.root_le livePar
    grind
  have members : ∀ x, x ∈ (d.liveIds.filter (start ≤ ·)).reverse ↔
      d.isLive x = true ∧ start ≤ x := by
    intro x
    simp [mem_liveIds rooted.ascending]
  have descending : (d.liveIds.filter (start ≤ ·)).reverse.Pairwise (· > ·) :=
    List.pairwise_reverse.mpr ((liveIds_ascending rooted.ascending).filter _)
  obtain ⟨tip, done⟩ := rooted.cancelAll_eq below members descending
  have atEdit := add_eq (resolveParent_edit rooted.isRoot live parent livePar) text
  have stillLive : cleared.2.isLive p = true := by
    simp only [cleared, done, isLive_killed]
    exact ⟨livePar, by simpa using less⟩
  have isRoot : cleared.2.root = some root := by
    simp only [cleared, done, rooted.isRoot]
  have atParent := add_eq (resolveParent_given isRoot stillLive) text
  refine ⟨p, d.issue.1, parent, congrArg Prod.fst atEdit, by simp only [cleared, done], ?_⟩
  rw [atEdit, atParent]
  simp only [cleared, done]
  rfl

theorem add_at_edit_eq_cancelAll_add_revised :
    let cleared := revised.cancelAll [5, 3, 2]
    cleared.2.liveIds = [1] ∧ cleared.2.add none (some 1) "f." = revised.add (some 2) none "f." := by
  have alive : revised.isLive 2 = true := by decide
  obtain ⟨p, id, parent, -, -, same⟩ :=
    add_at_edit_eq_cancelAll_add edited_revised (by decide) alive (by decide) "f."
  obtain rfl : 1 = p := Option.some.inj parent
  exact ⟨by decide, same.symm⟩

private theorem subtree_eq_singleton (last : ∀ e ∈ d.entries, e.id ≤ id) : d.subtree id = [id] := by
  have none_above : d.entries.filter (fun e => id < e.id) = [] := by
    refine List.filter_eq_nil_iff.mpr fun e mem => ?_
    have := last e mem
    simpa using this
  rw [subtree_eq, none_above, List.foldl_nil]

/-- The document in which a sentence was added on a state and taken back: it has a dead record more,
that state is the tip, and the number is used up. -/
def takenBack (d : Document) (p : StateId) (text : String) : Document :=
  { d with
    entries := d.entries ++ [⟨d.issue.1, some p, text, false⟩]
    tip := some p
    next := d.issue.2.next }

theorem Rooted.cancel_added (h : d.Rooted root) (above : ∀ e ∈ d.entries, e.id < d.issue.1)
    (p : StateId) (text : String) :
    (d.issue.2.attach d.issue.1 p text).cancel d.issue.1 = (.ok p, d.takenBack p text) := by
  generalize added : d.issue.2.attach d.issue.1 p text = d'
  have recorded : d'.entries = d.entries ++ [⟨d.issue.1, some p, text, true⟩] := by
    rw [← added]
    exact record_eq_append above
  have alone : d'.subtree d.issue.1 = [d.issue.1] := by
    refine subtree_eq_singleton ?_
    rw [recorded]
    intro e mem
    rcases List.mem_append.mp mem with mem | mem
    · exact UInt64.le_of_lt (above e mem)
    · rw [List.mem_singleton.mp mem]
      exact UInt64.le_refl _
  have pruned : d'.prune d.issue.1 = d.takenBack p text := by
    have parent : d'.parentOf d.issue.1 = some p := by
      rw [← added, parentOf_attach, if_pos rfl]
    have killed := kill_append_last (e := ⟨d.issue.1, some p, text, true⟩) above
    have others : d'.tip = some d.issue.1 ∧ d'.root = d.root ∧ d'.next = d.issue.2.next := by
      rw [← added]
      exact ⟨rfl, rfl, rfl⟩
    simp only [Document.prune, alone, recorded, parent, killed, others]
    simp [takenBack]
  have isRoot : d'.root = some root := by rw [← added, ← h.isRoot, attach, root_issue]
  have notRoot : d'.root ≠ some d.issue.1 := by
    obtain ⟨e, mem, same⟩ := exists_mem_of_wasIssued (wasIssued_of_isLive h.liveRoot)
    have less : root < d.issue.1 := same ▸ above e mem
    rw [isRoot]
    exact fun same => UInt64.ne_of_lt less (Option.some.inj same)
  have live : d'.isLive d.issue.1 = true := by
    rw [← added]
    exact isLive_attach.mpr (Or.inl rfl)
  rw [Document.cancel_eq (by rw [isRoot]; rfl) live notRoot, pruned]
  rfl

theorem find?_takenBack (recorded : d.wasIssued x = true) :
    (d.takenBack p text).find? x = d.find? x := by
  obtain ⟨e, found⟩ := Option.isSome_iff_exists.mp recorded
  have inFront : d.entries.find? (fun e => e.id == x) = some e := found
  rw [find?, find?, takenBack, List.find?_append, inFront]
  rfl

theorem isLive_takenBack (live : d.isLive x = true) : (d.takenBack p text).isLive x = true := by
  rw [isLive, find?_takenBack (wasIssued_of_isLive live)]
  exact live

theorem liveIds_takenBack : (d.takenBack p text).liveIds = d.liveIds := by
  simp [liveIds, takenBack]

end Document

end ProofHost
