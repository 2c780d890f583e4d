import ProofHost.Proofs.Json.Reading
import ProofHost.Proofs.Wire.RoundTrip
import ProofHost.Proofs.Wire.Unions

/-!
Messages that were decoded, written again. A text may spell a message in many ways, but the value
that it is decoded to carries only what was inside of the text: nothing that lies deeper than it lay
there, no object out of order, and no snapshot that is null. So its own text is one that is read
back.
-/

set_option autoImplicit false

namespace ProofHost

open Json

namespace Json

/-- What lies directly inside of a container. -/
def parts : Json → List Json
  | .array items => items
  | .object fields => fields.map Prod.snd
  | _ => []

private theorem Tidy.part {v x : Json} {n : Nat} (tidy : v.Tidy (n + 1)) (there : x ∈ v.parts) :
    x.Tidy n := by
  cases v with
  | array items => exact tidy_array.mp tidy x there
  | object fields =>
    obtain ⟨field, inside, rfl⟩ := List.mem_map.mp there
    exact (tidy_object.mp tidy).2 field inside
  | _ => cases there

end Json

namespace RecordShape

variable {shape : RecordShape} {fields : List RecordField} {given : List (String × Json)}
  {slots slots' : Slots} {values : List Json} {v x : Json}

private theorem mem_of_fill (filled : shape.fill slots given = .ok slots')
    (there : some x ∈ slots') :
    some x ∈ slots ∨ x ∈ given.map Prod.snd := by
  induction given generalizing slots with
  | nil =>
    cases filled
    exact Or.inl there
  | cons field given ih =>
    obtain ⟨name, v⟩ := field
    have later (filled : shape.fill slots given = .ok slots') :
        some x ∈ slots ∨ x ∈ ((name, v) :: given).map Prod.snd :=
      (ih filled).imp_right (List.mem_cons_of_mem _)
    rw [fill] at filled
    split at filled
    · exact later filled
    · split at filled
      · exact later filled
      · split at filled
        · cases filled
        · rcases ih filled with set | there
          · rcases List.mem_or_eq_of_mem_set set with before | same
            · exact Or.inl before
            · cases same
              exact Or.inr List.mem_cons_self
          · exact Or.inr (List.mem_cons_of_mem _ there)

private theorem mem_of_complete (done : complete fields slots = .ok values) (there : x ∈ values) :
    some x ∈ slots ∨ ∃ f ∈ fields, f.fallback = some x := by
  induction fields generalizing slots values with
  | nil =>
    cases done
    cases there
  | cons f fields ih =>
    rw [complete] at done
    split at done
    · cases done
    · rename_i y filled
      obtain ⟨rest, completed, rfl⟩ := map_eq_ok done
      rcases List.mem_cons.mp there with rfl | there
      · rcases Option.or_eq_some_iff.mp filled with held | ⟨-, fallback⟩
        · cases slots with
          | nil => cases held
          | cons slot slots => exact Or.inl (List.mem_cons.mpr (Or.inl held.symm))
        · exact Or.inr ⟨f, List.mem_cons_self, fallback⟩
      · rcases ih completed there with held | ⟨g, mem, fallback⟩
        · exact Or.inl (List.mem_of_mem_tail held)
        · exact Or.inr ⟨g, List.mem_cons_of_mem _ mem, fallback⟩

private theorem mem_of_fallbacks (all : fallbacks fields = some values) (there : x ∈ values) :
    ∃ f ∈ fields, f.fallback = some x := by
  induction fields generalizing values with
  | nil =>
    cases all
    cases there
  | cons f fields ih =>
    rw [fallbacks] at all
    split at all
    · rename_i own rest
      cases all
      rcases List.mem_cons.mp there with rfl | there
      · exact ⟨f, List.mem_cons_self, own⟩
      · obtain ⟨g, mem, fallback⟩ := ih rest there
        exact ⟨g, List.mem_cons_of_mem _ mem, fallback⟩
    · cases all

private theorem part_or_fallback (done : shape.ofJson v = .ok values) (there : x ∈ values) :
    x ∈ v.parts ∨ ∃ f ∈ shape.fields, f.fallback = some x := by
  cases v with
  | object given =>
    rw [ofJson] at done
    split at done
    · cases done
    · rename_i slots filled
      rcases mem_of_complete done there with held | fallback
      · rcases mem_of_fill filled held with empty | inside
        · simp [RecordShape.empty] at empty
        · exact Or.inl inside
      · exact Or.inr fallback
  | array items =>
    rw [ofJson] at done
    split at done
    · cases done
    · split at done
      · cases done
      · rw [extend] at done
        split at done
        · rename_i rest all
          cases done
          rcases List.mem_append.mp there with inside | left
          · exact Or.inl inside
          · obtain ⟨f, mem, fallback⟩ := mem_of_fallbacks all left
            exact Or.inr ⟨f, List.mem_of_mem_drop mem, fallback⟩
        · cases done
  | _ => cases done

end RecordShape

private theorem Feedback.contents_mem_parts {v : Json} {f : Feedback} (done : ofJson v = .ok f) :
    f.contents ∈ v.parts := by
  obtain ⟨values, read, built⟩ := bind_eq_ok_iff.mp done
  have there : f.contents ∈ values := by
    unfold ofValues at built
    split at built
    · simp only [bind_eq_ok_iff, pure_eq_ok, Except.ok.injEq] at built
      obtain ⟨_, -, _, -, _, -, rfl⟩ := built
      simp
    · cases built
  rcases RecordShape.part_or_fallback read there with inside | ⟨field, mem, fallback⟩
  · exact inside
  · -- A piece of feedback has no field that may be left out.
    have needed : ∀ field ∈ shape.fields, field.fallback = none := by
      simp [shape, RecordField.scalar, RecordField.any]
    rw [needed field mem] at fallback
    cases fallback

private theorem Tagged.field_eq_ok_iff {α ε : Type} {t : Tagged} {i : Nat}
    {decode : Json → Except ε α}
    {a : α} : t.field i decode = .ok a ↔ ∃ x, t.fields[i]? = some x ∧ decode x = .ok a := by
  unfold Tagged.field
  cases t.fields[i]? with
  | none => simp
  | some x => cases made : decode x <;> simp [made]

private theorem Json.inField_eq_ok_iff {α : Type} {decode : Decoder α} {x : Json} {a : α} :
    inField decode x = .ok a ↔ decode x = .ok a := by
  unfold inField
  cases decode x <;> simp

namespace Answer

variable {t : Tagged} {v : Json} {a : Answer}

/-- How an answer has come to carry values: it carries none, or a field that is the goals, or the
contents of a field that is feedback. -/
inductive Carried (fields : List Json) : Answer → Prop
  | nothing {a : Answer} (none : a.payloads = []) : Carried fields a
  | goals (state : StateId) {g : Json} (field : g ∈ fields) (notNull : g ≠ .null) :
    Carried fields (.goalInfo state (some g))
  | feedback {f : Feedback} {x : Json} (field : x ∈ fields) (inside : f.contents ∈ x.parts) :
    Carried fields (.feedback f)

private theorem carried_of_ofTagged (done : ofTagged t = .ok a) : Carried t.fields a := by
  unfold ofTagged at done
  split at done
  case h_4 =>
    simp only [bind_eq_ok_iff, Tagged.field_eq_ok_iff, inField_eq_ok_iff, pure_eq_ok,
      Except.ok.injEq] at done
    obtain ⟨_, -, state, -, goals, ⟨x, found, read⟩, rfl⟩ := done
    by_cases null : x = .null
    · subst null
      cases read
      exact .nothing rfl
    · rw [asOption_of_ne_null null] at read
      cases read
      exact .goals state (List.mem_of_getElem? found) null
  case h_5 =>
    simp only [bind_eq_ok_iff, Tagged.field_eq_ok_iff, inField_eq_ok_iff, pure_eq_ok,
      Except.ok.injEq] at done
    obtain ⟨_, -, f, ⟨x, found, read⟩, rfl⟩ := done
    exact .feedback (List.mem_of_getElem? found) (Feedback.contents_mem_parts read)
  case h_8 => cases done
  all_goals simp only [bind_eq_ok_iff, pure_eq_ok, Except.ok.injEq] at done
  case h_2 =>
    obtain ⟨_, -, _, -, _, -, rfl⟩ := done
    exact .nothing rfl
  case h_6 =>
    obtain ⟨_, -, _, -, _, -, _, -, rfl⟩ := done
    exact .nothing rfl
  all_goals
    obtain ⟨_, -, _, -, rfl⟩ := done
    exact .nothing rfl

private theorem within_of_carried {fields : List Json} {n : Nat} (carried : Carried fields a)
    (tidy : ∀ x ∈ fields, x.Tidy (n + 1)) (noReal : ∀ x ∈ a.payloads, x.NoReal) :
    a.toJson.Within (n + 2) ∧ ∀ x ∈ a.payloads, x.Ordered := by
  cases carried with
  | nothing none =>
    refine ⟨Answer.within ?_, ?_⟩ <;> (rw [none]; exact List.forall_mem_nil _)
  | @goals state g field notNull =>
    obtain ⟨ordered, fits⟩ := tidy g field
    have inside : g.Within (n + 1) := ⟨⟨ordered, noReal g List.mem_cons_self⟩, fits⟩
    refine ⟨by simp [toJson, Tagged.toJson, Answer.fields, ofOption, inside], ?_⟩
    exact List.forall_mem_singleton.mpr ordered
  | @feedback f x field inside =>
    obtain ⟨ordered, fits⟩ := (tidy x field).part inside
    have inner : f.contents.Within n := ⟨⟨ordered, noReal f.contents List.mem_cons_self⟩, fits⟩
    refine ⟨Answer.within (a := .feedback f) (List.forall_mem_singleton.mpr inner), ?_⟩
    exact List.forall_mem_singleton.mpr ordered

private theorem exists_tagged_of_ofJson (done : ofJson v = .ok a) :
    ∃ t : Tagged, v = .array (.string t.tag :: t.fields) ∧ ofTagged t = .ok a := by
  obtain ⟨t, tagged, made⟩ := bind_eq_ok_iff.mp done
  refine ⟨t, ?_, made⟩
  unfold Tagged.ofJson at tagged
  split at tagged <;> cases tagged
  rfl

theorem noNullSnapshot_of_ofJson (done : ofJson v = .ok a) : a.NoNullSnapshot := by
  obtain ⟨t, -, made⟩ := exists_tagged_of_ofJson done
  have carried := carried_of_ofTagged made
  rintro state rfl
  cases carried with
  | nothing none => cases none
  | goals _ _ notNull => exact notNull rfl

theorem transparent_of_ofJson (tidy : v.Tidy maxDepth) (done : ofJson v = .ok a)
    (noReal : ∀ x ∈ a.payloads, x.NoReal) : a.Transparent := by
  obtain ⟨t, rfl, made⟩ := exists_tagged_of_ofJson done
  have carried := carried_of_ofTagged made
  have inside : ∀ x ∈ t.fields, x.Tidy (maxDepth - 2 + 1) := fun x there =>
    tidy_array.mp tidy x (List.mem_cons_of_mem _ there)
  obtain ⟨within, ordered⟩ := within_of_carried carried inside noReal
  exact ⟨noNullSnapshot_of_ofJson done, ordered, noReal, within.fits⟩

end Answer

def Message.payloads : Message → List Json
  | answer a => a.payloads
  | notice _ => []

private theorem Message.transparent_of_ofJson {v : Json} {m : Message} (tidy : v.Tidy maxDepth)
    (done : ofJson v = .ok m) (noReal : ∀ x ∈ m.payloads, x.NoReal) : m.Transparent := by
  cases m with
  | notice n => exact trivial
  | answer a => exact Answer.transparent_of_ofJson tidy (ofJson_answer_iff.mp done) noReal

/-- Whatever message a text is decoded to, however the text spells it, its own text is decoded to
the same message, if what it carries as it came has no floating-point number. -/
theorem decoded_messages_read_back (text : String) :
    (∀ c, Command.decode text = .ok c → Command.decode c.encode = .ok c) ∧
    (∀ r, Request.decode text = .ok r → Request.decode r.encode = .ok r) ∧
    (∀ n, Notice.decode text = .ok n → Notice.decode n.encode = .ok n) ∧
    (∀ s, Search.decode text = .ok s → Search.decode s.encode = .ok s) ∧
    (∀ a, Answer.decode text = .ok a → (∀ x ∈ a.payloads, x.NoReal) →
      Answer.decode a.encode = .ok a) ∧
    ∀ m, Message.decode text = .ok m → (∀ x ∈ m.payloads, x.NoReal) →
      Message.decode m.encode = .ok m := by
  refine ⟨fun c _ => c.decode_encode, fun r _ => r.decode_encode, fun n _ => n.decode_encode,
    fun s _ => s.decode_encode, ?_, ?_⟩
  · intro a done noReal
    obtain ⟨v, parsed, made⟩ := decodeText_ok_iff.mp done
    exact Answer.decode_encode (Answer.transparent_of_ofJson (tidy_of_parse parsed) made noReal)
  · intro m done noReal
    obtain ⟨v, parsed, made⟩ := decodeText_ok_iff.mp done
    exact Message.decode_encode (Message.transparent_of_ofJson (tidy_of_parse parsed) made noReal)

/-- Feedback whose text is a list in place of a record, with its level in the long form, an escape
and a name that stands twice. -/
theorem decoded_messages_read_back_list :
    let text :=
      " [ \"Feedback\", [2, 7, \x7b\"Warning\": null\x7d, \x7b\"b\": 1, \"a\": \"\\u00e9\", \"b\": [-4]\x7d] ]"
    let f : Feedback :=
      ⟨2, 7, .warning, .object [("a", .string "é"), ("b", .array [.number (.negative 3)])]⟩
    Answer.decode text = .ok (.feedback f) ∧
      Answer.decode (Answer.feedback f).encode = .ok (.feedback f) ∧
      Message.decode (Message.answer (.feedback f)).encode = .ok (.answer (.feedback f)) := by
  intro text f
  have answer : Answer.decode text = .ok (.feedback f) := by decide +kernel
  have message : Message.decode text = .ok (.answer (.feedback f)) := by decide +kernel
  have noReal : ∀ x ∈ [f.contents], x.NoReal := by
    refine List.forall_mem_singleton.mpr (.object ?_)
    simp only [List.forall_mem_cons]
    exact ⟨.string _, .array (by simp [NoReal.negative]), nofun⟩
  obtain ⟨-, -, -, -, answers, messages⟩ := decoded_messages_read_back text
  exact ⟨answer, answers _ answer noReal, messages _ message noReal⟩

end ProofHost
