import ProofHost.Proofs.Json.Acceptance

/-!
Vocabularies of tagged arrays. A vocabulary has one form for each of its tags, with the places of
the fields after the tag. A value conforms to a vocabulary or is refused by it, with a cause that
depends on the first condition it breaks. A decoder that checks the places of a form one after
another takes exactly what conforms, and refuses all else for that cause.
-/

set_option autoImplicit false

namespace ProofHost

variable {α β ε : Type}

theorem map_eq_error_iff {r : Except ε α} {f : α → β} {e : ε} :
    r.map f = .error e ↔ r = .error e := by
  cases r <;> simp [Except.map]

/-- A place in a tagged array: what it admits, and a check that gives the cause for all else. -/
structure Place (ε : Type) where
  Admits : Json → Prop
  check : Json → Except ε Unit
  exact : ∀ v, check v = .ok () ↔ Admits v

def Place.of {decode : Json → Except ε α} {P : Json → Prop} (takes : Json.Takes decode P) :
    Place ε where
  Admits := P
  check v := (decode v).map fun _ => ()
  exact := takes.map_unit_iff

abbrev Place.holding {decode : Json.Decoder α} {P : Json → Prop} (takes : Json.Takes decode P) :
    Place FieldError := .of takes.inField

structure Form (ε : Type) where
  tag : String
  places : List (Place ε)

structure Vocabulary (ε : Type) where
  forms : List (Form ε)
  distinct : (forms.map Form.tag).Nodup

namespace Vocabulary

variable {voc : Vocabulary ε} {form : Form ε} {tag : String} {fields : List Json} {v : Json}
  {e : TagError ε}

def Owns (voc : Vocabulary ε) (tag : String) : Prop := ∃ form ∈ voc.forms, form.tag = tag

/-- The value is an array of the tag of a form and of one field for each of its places, which admits
the field. -/
def Conforms (voc : Vocabulary ε) (v : Json) : Prop :=
  ∃ form ∈ voc.forms, ∃ fields, v = .array (.string form.tag :: fields) ∧
    List.Forall₂ Place.Admits form.places fields

/-- The value breaks the rules of the vocabulary, with the error for the first rule it breaks. -/
inductive Refuses (voc : Vocabulary ε) : Json → TagError ε → Prop
  | notArray {v : Json} (other : ∀ items, v ≠ .array items) : Refuses voc v .notArray
  | missingTag {items : List Json} (other : ∀ tag fields, items ≠ .string tag :: fields) :
    Refuses voc (.array items) .missingTag
  | unknownTag {tag : String} {fields : List Json} (foreign : ¬ voc.Owns tag) :
    Refuses voc (.array (.string tag :: fields)) (.unknownTag tag)
  | arity {form : Form ε} {fields : List Json} (mem : form ∈ voc.forms)
    (differ : fields.length ≠ form.places.length) :
    Refuses voc (.array (.string form.tag :: fields))
      (.arity form.tag form.places.length fields.length)
  | field {form : Form ε} {front back : List (Place ε)} {place : Place ε}
    {before after : List Json} {x : Json} {cause : ε} (mem : form ∈ voc.forms)
    (places : form.places = front ++ place :: back) (sameLength : after.length = back.length)
    (admitted : List.Forall₂ Place.Admits front before) (refused : place.check x = .error cause) :
    Refuses voc (.array (.string form.tag :: (before ++ x :: after)))
      (.field form.tag front.length cause)

/-- The decoder gives a result for the values that conform, and for all others the error with which
they are refused. -/
def DecidedBy (voc : Vocabulary ε) (decode : Json → Except (TagError ε) α) : Prop :=
  ∀ v, ((∃ a, decode v = .ok a) ↔ voc.Conforms v) ∧ ∀ e, decode v = .error e ↔ voc.Refuses v e

def union (left right : Vocabulary ε) (apart : ∀ tag, left.Owns tag → ¬ right.Owns tag) :
    Vocabulary ε where
  forms := left.forms ++ right.forms
  distinct := by
    rw [List.map_append, List.nodup_append]
    refine ⟨left.distinct, right.distinct, ?_⟩
    rintro tag first other second rfl
    exact apart tag (List.mem_map.mp first) (List.mem_map.mp second)

variable {left right : Vocabulary ε} {apart : ∀ tag, left.Owns tag → ¬ right.Owns tag}

theorem owns_union : (left.union right apart).Owns tag ↔ left.Owns tag ∨ right.Owns tag := by
  simp only [Owns, union, List.mem_append]
  constructor
  · rintro ⟨form, mem | mem, same⟩
    · exact Or.inl ⟨form, mem, same⟩
    · exact Or.inr ⟨form, mem, same⟩
  · rintro (⟨form, mem, same⟩ | ⟨form, mem, same⟩)
    · exact ⟨form, Or.inl mem, same⟩
    · exact ⟨form, Or.inr mem, same⟩

private theorem all_or_first_refused {places : List (Place ε)}
    (same : fields.length = places.length) :
    List.Forall₂ Place.Admits places fields ∨
      ∃ front place back before x after cause, places = front ++ place :: back ∧
        fields = before ++ x :: after ∧ after.length = back.length ∧
        List.Forall₂ Place.Admits front before ∧ place.check x = .error cause := by
  induction places generalizing fields with
  | nil =>
    obtain rfl := List.length_eq_zero_iff.mp same
    exact Or.inl .nil
  | cons place places ih =>
    cases fields with
    | nil => cases same
    | cons x fields =>
      have same := Nat.succ.inj same
      cases checked : place.check x with
      | error cause =>
        exact Or.inr ⟨[], place, places, [], x, fields, cause, rfl, rfl, same, .nil, checked⟩
      | ok u =>
        have admits := (place.exact x).mp checked
        rcases ih same with all | ⟨front, p, back, before, y, after, cause, hp, hf, len, pass, no⟩
        · exact Or.inl (.cons admits all)
        · refine Or.inr ⟨place :: front, p, back, x :: before, y, after, cause, ?_, ?_, len,
            .cons admits pass, no⟩
          · rw [hp, List.cons_append]
          · rw [hf, List.cons_append]

private theorem conforms_or_refuses (voc : Vocabulary ε) (v : Json) :
    voc.Conforms v ∨ ∃ e, voc.Refuses v e := by
  by_cases array : ∃ items, v = .array items
  · obtain ⟨items, rfl⟩ := array
    by_cases tagged : ∃ tag fields, items = .string tag :: fields
    · obtain ⟨tag, fields, rfl⟩ := tagged
      by_cases owned : voc.Owns tag
      · obtain ⟨form, mem, rfl⟩ := owned
        by_cases same : fields.length = form.places.length
        · rcases all_or_first_refused same with
            all | ⟨front, place, back, before, x, after, cause, places, rfl, len, pass, no⟩
          · exact Or.inl ⟨form, mem, fields, rfl, all⟩
          · exact Or.inr ⟨_, .field mem places len pass no⟩
        · exact Or.inr ⟨_, .arity mem same⟩
      · exact Or.inr ⟨_, .unknownTag owned⟩
    · exact Or.inr ⟨_, .missingTag fun tag fields same => tagged ⟨tag, fields, same⟩⟩
  · exact Or.inr ⟨_, .notArray fun items same => array ⟨items, same⟩⟩

end Vocabulary

namespace Tagged

def checkFrom (t : Tagged) : Nat → List (Place ε) → Except (TagError ε) Unit
  | _, [] => .ok ()
  | i, place :: places => t.field i place.check >>= fun _ => checkFrom t (i + 1) places

variable {tag : String} {seen rest : List Json} {x : Json}

private theorem field_at (decode : Json → Except ε α) :
    (⟨tag, seen ++ x :: rest⟩ : Tagged).field seen.length decode =
      match decode x with
      | .ok a => .ok a
      | .error e => .error (.field tag seen.length e) := by
  cases made : decode x <;> simp [Tagged.field, made]

private theorem checkFrom_append (tag : String) {front : List (Place ε)} {before : List Json}
    (admitted : List.Forall₂ Place.Admits front before) (places : List (Place ε))
    (seen rest : List Json) :
    checkFrom ⟨tag, seen ++ (before ++ rest)⟩ seen.length (front ++ places) =
      checkFrom ⟨tag, seen ++ (before ++ rest)⟩ (seen.length + front.length) places := by
  induction admitted generalizing seen with
  | nil => rfl
  | @cons place x front before admits _ ih =>
    have passed := (place.exact x).mpr admits
    have later := ih (seen ++ [x])
    simp only [List.append_assoc, List.singleton_append, List.length_append, List.length_singleton]
      at later
    rw [List.cons_append, List.cons_append, checkFrom, field_at, passed, ok_bind, later,
      List.length_cons, Nat.add_assoc, Nat.add_comm 1]

end Tagged

namespace Form

variable {form : Form ε} {fields before after : List Json} {x : Json} {cause : ε}
  {front back : List (Place ε)} {place : Place ε}

def judge (form : Form ε) (fields : List Json) : Except (TagError ε) Unit :=
  Tagged.arity ⟨form.tag, fields⟩ form.places.length >>= fun _ =>
    Tagged.checkFrom ⟨form.tag, fields⟩ 0 form.places

private theorem judge_of_arity (differ : fields.length ≠ form.places.length) :
    form.judge fields = .error (.arity form.tag form.places.length fields.length) := by
  rw [judge, Tagged.arity, if_neg differ]
  rfl

private theorem judge_of_length (same : fields.length = form.places.length) :
    form.judge fields = Tagged.checkFrom ⟨form.tag, fields⟩ 0 form.places := by
  rw [judge, Tagged.arity, if_pos same]
  rfl

private theorem judge_of_admitted (admitted : List.Forall₂ Place.Admits form.places fields) :
    form.judge fields = .ok () := by
  have run := Tagged.checkFrom_append form.tag admitted [] [] []
  simp only [List.append_nil, List.nil_append, List.length_nil] at run
  rw [judge_of_length admitted.length_eq.symm, run, Tagged.checkFrom]

private theorem judge_of_refused (places : form.places = front ++ place :: back)
    (sameLength : after.length = back.length) (admitted : List.Forall₂ Place.Admits front before)
    (refused : place.check x = .error cause) :
    form.judge (before ++ x :: after) = .error (.field form.tag front.length cause) := by
  have same : (before ++ x :: after).length = form.places.length := by
    simp [places, sameLength, admitted.length_eq]
  have run := Tagged.checkFrom_append form.tag admitted (place :: back) [] (x :: after)
  simp only [List.nil_append, List.length_nil, Nat.zero_add] at run
  rw [judge_of_length same, places, run, Tagged.checkFrom, admitted.length_eq, Tagged.field_at,
    refused]
  rfl

end Form

namespace Vocabulary

variable {voc : Vocabulary ε} {decode : Tagged → Except (TagError ε) α}

/-- The decoder checks a tagged array against the form of its tag, and knows no other tags. -/
structure Followed (voc : Vocabulary ε) (decode : Tagged → Except (TagError ε) α) : Prop where
  known : ∀ form ∈ voc.forms, ∀ fields,
    (decode ⟨form.tag, fields⟩).map (fun _ => ()) = form.judge fields
  unknown : ∀ t : Tagged, ¬ voc.Owns t.tag → decode t = t.unknown

private theorem exists_ok_of_map {r : Except ε α} (passed : r.map (fun _ => ()) = .ok ()) :
    ∃ a, r = .ok a := by
  cases r with
  | error e => cases passed
  | ok a => exact ⟨a, rfl⟩

namespace Followed

variable (h : voc.Followed decode)

include h

private theorem exists_ok {v : Json} (conforms : voc.Conforms v) :
    ∃ a, (Tagged.ofJson v >>= decode) = .ok a := by
  obtain ⟨form, mem, fields, rfl, admitted⟩ := conforms
  apply exists_ok_of_map
  show (decode ⟨form.tag, fields⟩).map _ = .ok ()
  rw [h.known form mem, Form.judge_of_admitted admitted]

private theorem eq_error {v : Json} {e : TagError ε} (refuses : voc.Refuses v e) :
    (Tagged.ofJson v >>= decode) = .error e := by
  cases refuses with
  | notArray other =>
    cases v with
    | array items => exact absurd rfl (other items)
    | _ => rfl
  | @missingTag items other =>
    have noTag : (Tagged.ofJson (.array items) : Except (TagError ε) Tagged) = .error .missingTag := by
      unfold Tagged.ofJson
      split
      · rename_i tag fields same
        exact absurd (Json.array.inj same) (other tag fields)
      · rfl
      · rename_i noArray
        exact absurd rfl (noArray items)
    rw [noTag]
    rfl
  | @unknownTag tag fields foreign => exact h.unknown ⟨tag, fields⟩ foreign
  | @arity form fields mem differ =>
    apply (map_eq_error_iff (f := fun _ => ())).mp
    show (decode ⟨form.tag, fields⟩).map _ = _
    rw [h.known form mem, Form.judge_of_arity differ]
  | @field form front back place before after x cause mem places sameLength admitted refused =>
    apply (map_eq_error_iff (f := fun _ => ())).mp
    show (decode ⟨form.tag, before ++ x :: after⟩).map _ = _
    rw [h.known form mem, Form.judge_of_refused places sameLength admitted refused]

theorem decidedBy : voc.DecidedBy fun v => Tagged.ofJson v >>= decode := by
  intro v
  refine ⟨⟨?_, h.exists_ok⟩, fun e => ⟨?_, h.eq_error⟩⟩
  · rintro ⟨a, done⟩
    rcases voc.conforms_or_refuses v with conforms | ⟨e, refuses⟩
    · exact conforms
    · have failed := h.eq_error refuses
      simp only [done] at failed
      cases failed
  · intro failed
    rcases voc.conforms_or_refuses v with conforms | ⟨e', refuses⟩
    · obtain ⟨a, done⟩ := h.exists_ok conforms
      simp only [done] at failed
      cases failed
    · have same := h.eq_error refuses
      simp only [failed] at same
      cases same
      exact refuses

end Followed

end Vocabulary

end ProofHost
