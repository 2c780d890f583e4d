import ProofHost.Proofs.Document.Operations

/-!
Documents that go on. Below one root no operation forgets a number, changes what a recorded state is
built on or what it says, or brings a dead state back to life; only a state under a new number can
be live that was not. To start over keeps what is recorded, too, but leaves none of it live. So the
path of a state is the same as long as the state is live.
-/

set_option autoImplicit false

namespace ProofHost

namespace Document

variable {d d' d'' : Document} {root root' id p x : StateId}

/-- A later form of a document: the root stays, the parents and the texts of recorded states stay,
and no state that was recorded and dead is live. -/
structure Continued (d d' : Document) : Prop where
  root : d'.root = d.root
  entry : ∀ x e, d.find? x = some e →
    ∃ e', d'.find? x = some e' ∧ e'.parent = e.parent ∧ e'.text = e.text
  live : ∀ x, d'.isLive x = true → d.wasIssued x = true → d.isLive x = true

private theorem wasIssued_of_entry
    (entry : ∀ x e, d.find? x = some e →
      ∃ e', d'.find? x = some e' ∧ e'.parent = e.parent ∧ e'.text = e.text)
    (recorded : d.wasIssued x = true) : d'.wasIssued x = true := by
  obtain ⟨e, found⟩ := Option.isSome_iff_exists.mp recorded
  obtain ⟨e', found', -⟩ := entry x e found
  exact Option.isSome_iff_exists.mpr ⟨e', found'⟩

namespace Continued

theorem recorded (h : d.Continued d') (x : StateId) (recorded : d.wasIssued x = true) :
    d'.wasIssued x = true :=
  wasIssued_of_entry h.entry recorded

private theorem refl (d : Document) : d.Continued d :=
  ⟨rfl, fun _ e found => ⟨e, found, rfl, rfl⟩, fun _ h _ => h⟩

private theorem trans (h : d.Continued d') (h' : d'.Continued d'') : d.Continued d'' where
  root := h'.root.trans h.root
  entry x e found := by
    obtain ⟨e', found', parent', text'⟩ := h.entry x e found
    obtain ⟨e'', found'', parent'', text''⟩ := h'.entry x e' found'
    exact ⟨e'', found'', parent''.trans parent', text''.trans text'⟩
  live x live recorded := h.live x (h'.live x live (h.recorded x recorded)) recorded

private theorem killed (d : Document) (dead : StateId → Bool) (tip : Option StateId)
    (next : UInt64) :
    d.Continued ⟨kill dead d.entries, d.root, tip, next⟩ where
  root := rfl
  entry x e found := by
    have killed := (find?_kill dead d.entries x).trans (congrArg _ found)
    refine ⟨if dead e.id then { e with live := false } else e, killed, ?_⟩
    split <;> exact ⟨rfl, rfl⟩
  live _ live _ := (isLive_killed.mp live).1

theorem prune (d : Document) (id : StateId) : d.Continued (d.prune id) := killed d _ _ _

theorem cut (d : Document) (editAt : Option StateId) : d.Continued (d.cut editAt) := by
  cases editAt with
  | none => exact refl d
  | some start => exact killed d _ _ _

theorem recount (d : Document) (next : UInt64) : d.Continued { d with next := next } :=
  ⟨rfl, fun _ e found => ⟨e, found, rfl, rfl⟩, fun _ h _ => h⟩

theorem attach (fresh : d.wasIssued id = false) (p : StateId) (text : String) :
    d.Continued (d.attach id p text) where
  root := rfl
  entry x e found := by
    have old : x ≠ id := by
      rintro rfl
      rw [wasIssued, found] at fresh
      cases fresh
    exact ⟨e, by rw [find?_attach, if_neg old, found], rfl, rfl⟩
  live x live recorded := by
    rcases isLive_attach.mp live with rfl | live
    · rw [fresh] at recorded
      cases recorded
    · exact live

theorem add (fresh : d.wasIssued d.issue.1 = false) (editAt : Option StateId) (p : StateId)
    (text : String) :
    d.Continued ((d.cut editAt).issue.2.attach d.issue.1 p text) := by
  have unused : (d.cut editAt).wasIssued d.issue.1 = false := by
    cases editAt with
    | none => exact fresh
    | some start => exact wasIssued_killed.trans fresh
  have attached := attach (d := (d.cut editAt).issue.2) unused p text
  exact (cut d editAt).trans ((recount _ _).trans attached)

theorem rollback (d : Document) (good bad : StateId) : d.Continued (d.rollback good bad).2 := by
  obtain ⟨dead, tip, done⟩ := rollback_eq_killed d good bad
  rw [done]
  exact killed d dead tip d.next

end Continued

theorem wasIssued_reset (recorded : d.wasIssued x = true) : (d.reset id).wasIssued x = true := by
  rw [wasIssued, find?_reset]
  split
  · rfl
  · simpa [wasIssued] using recorded

/-- A later form of a document that may have been started over meanwhile: the parents and the texts
of recorded states stay, and one that is still live was live before, under the same root. -/
structure Retained (d d' : Document) : Prop where
  entry : ∀ x e, d.find? x = some e →
    ∃ e', d'.find? x = some e' ∧ e'.parent = e.parent ∧ e'.text = e.text
  live : ∀ x, d'.isLive x = true → d.wasIssued x = true → d.isLive x = true ∧ d'.root = d.root

theorem Continued.retained (h : d.Continued d') : d.Retained d' :=
  ⟨h.entry, fun x live recorded => ⟨h.live x live recorded, h.root⟩⟩

namespace Retained

theorem refl (d : Document) : d.Retained d := (Continued.refl d).retained

private theorem recorded (h : d.Retained d') (recorded : d.wasIssued x = true) :
    d'.wasIssued x = true :=
  wasIssued_of_entry h.entry recorded

theorem trans (h : d.Retained d') (h' : d'.Retained d'') : d.Retained d'' where
  entry x e found := by
    obtain ⟨e', found', parent', text'⟩ := h.entry x e found
    obtain ⟨e'', found'', parent'', text''⟩ := h'.entry x e' found'
    exact ⟨e'', found'', parent''.trans parent', text''.trans text'⟩
  live x live recorded := by
    obtain ⟨between, sameRoot'⟩ := h'.live x live (h.recorded recorded)
    obtain ⟨before, sameRoot⟩ := h.live x between recorded
    exact ⟨before, sameRoot'.trans sameRoot⟩

theorem init (fresh : d.wasIssued d.issue.1 = false) : d.Retained d.init.2 where
  entry x e found := by
    have old : x ≠ d.issue.1 := by
      rintro rfl
      rw [wasIssued, found] at fresh
      cases fresh
    have kept : d.issue.2.find? x = some e := found
    refine ⟨{ e with live := false }, ?_, rfl, rfl⟩
    rw [Document.init, find?_reset, if_neg old, kept]
    rfl
  live x live recorded := by
    -- The new root is the only live state.
    obtain rfl : x = d.issue.1 := isLive_reset.mp live
    rw [fresh] at recorded
    cases recorded

theorem parentOf_eq (h : d.Retained d') (recorded : d.wasIssued x = true) :
    d'.parentOf x = d.parentOf x := by
  obtain ⟨e, found⟩ := Option.isSome_iff_exists.mp recorded
  obtain ⟨e', found', parent, -⟩ := h.entry x e found
  rw [parentOf, parentOf, found, found']
  exact parent

theorem textOf_eq (h : d.Retained d') (recorded : d.wasIssued x = true) :
    d'.textOf x = d.textOf x := by
  obtain ⟨e, found⟩ := Option.isSome_iff_exists.mp recorded
  obtain ⟨e', found', -, text⟩ := h.entry x e found
  rw [textOf, textOf, found, found']
  exact congrArg some text

end Retained

private theorem Retained.climb_eq (h : d.Retained d') (branching : d.Branching root) (fuel : Nat)
    (live : d.isLive x = true) : d'.climb fuel x = d.climb fuel x := by
  induction fuel generalizing x with
  | zero => rw [Document.climb, Document.climb, h.parentOf_eq (wasIssued_of_isLive live)]
  | succ fuel ih =>
    simp only [Document.climb, h.parentOf_eq (wasIssued_of_isLive live)]
    cases parent : d.parentOf x with
    | none => rfl
    | some p =>
      have notRoot : x ≠ root := by
        rintro rfl
        rw [branching.topmost] at parent
        cases parent
      obtain ⟨q, isParent, livePar, -⟩ := branching.parent x live notRoot
      obtain rfl : p = q := Option.some.inj (parent.symm.trans isParent)
      simp only [ih livePar]

theorem Retained.path_eq (h : d.Retained d') (branching : d.Branching root)
    (branching' : d'.Branching root') (live : d'.isLive x = true) (recorded : d.wasIssued x = true) :
    d'.path x = d.path x := by
  have before : d.isLive x = true := (h.live x live recorded).1
  obtain ⟨up, climbed, -⟩ := branching.climb _ before (Branching.rank_le_length d x)
  obtain ⟨up', climbed', -⟩ := branching'.climb _ live (Branching.rank_le_length d' x)
  -- With the steps of both together, the two climbs are one.
  have more := climb_of_le climbed (Nat.le_add_right _ d'.entries.length)
  have more' := climb_of_le climbed' (Nat.le_add_left _ d.entries.length)
  rw [h.climb_eq branching _ before] at more'
  obtain rfl := Option.some.inj (more.symm.trans more')
  rw [path_of_climb branching.isRoot before climbed, path_of_climb branching'.isRoot live climbed']

end Document

end ProofHost
