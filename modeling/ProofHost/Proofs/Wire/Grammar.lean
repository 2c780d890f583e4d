import ProofHost.Proofs.Wire.Vocabulary

/-!
The vocabularies of searches, commands, answers, requests and notices, with the fields of each tag.
Their decoders follow them: they take what conforms, no item more or less, and of several faults
they report the first one.
-/

set_option autoImplicit false

namespace ProofHost

open Json

private theorem Level.ofName_ok_iff {text : String} {level : Level} :
    Level.ofName text = .ok level ↔ text = level.name := by
  constructor
  · intro found
    unfold ofName at found
    split at found
    · rename_i other same
      have named := List.find?_some same
      cases found
      exact (beq_iff_eq.mp named).symm
    · cases found
  · rintro rfl
    cases level <;> rfl

def IsLevel (v : Json) : Prop :=
  ∃ level : Level, v = .string level.name ∨ v = .object [(level.name, .null)]

private theorem takes_level : Takes Level.ofJson IsLevel := by
  intro v
  cases v with
  | string s => simp [Level.ofJson, IsLevel, Level.ofName_ok_iff]
  | object fields =>
    rcases fields with _ | ⟨⟨key, x⟩, _ | ⟨more, rest⟩⟩
    · simp [Level.ofJson, IsLevel]
    · simp only [Level.ofJson]
      cases named : Level.ofName key with
      | error e =>
        refine iff_of_false nofun ?_
        rintro ⟨level, same | same⟩
        · cases same
        · obtain ⟨name, -⟩ : key = level.name ∧ x = .null := by simpa using same
          rw [Level.ofName_ok_iff.mpr name] at named
          cases named
      | ok level =>
        obtain rfl := Level.ofName_ok_iff.mp named
        constructor
        · rintro ⟨a, done⟩
          cases x with
          | null => exact ⟨level, Or.inr rfl⟩
          | _ => cases done
        · rintro ⟨other, same | same⟩
          · cases same
          · obtain ⟨-, rfl⟩ : level.name = other.name ∧ x = .null := by simpa using same
            exact ⟨level, rfl⟩
    · simp [Level.ofJson, IsLevel]
  | _ => simp [Level.ofJson, IsLevel]

private theorem fills_scalar {α : Type} {decode : Decoder α} {P : Json → Prop}
    (takes : Takes decode P)
    (name : String) {fallback : Option Json} (default : ∀ v, fallback = some v → P v) :
    (RecordField.scalar name decode fallback).Fills ⟨name, P, fallback.isNone⟩ where
  name := rfl
  check := takes.map_unit_iff
  fallback := by
    show fallback.isSome = !fallback.isNone
    simp
  default := default

def IsSpan : Json → Prop := IsRecord
  [⟨"bp", IsWord, true⟩, ⟨"ep", IsWord, true⟩, ⟨"line_nb", IsHalf, false⟩,
    ⟨"bol_pos", IsWord, false⟩]

private theorem isNatural_zero {limit : Nat} (positive : 0 < limit) : IsNatural limit (ofWord 0) :=
  ⟨0, rfl, positive⟩

theorem takes_span : Takes Span.ofJson IsSpan := by
  have zero {limit : Nat} (positive : 0 < limit) (v : Json) (same : some (ofWord 0) = some v) :
      IsNatural limit v := Option.some.inj same ▸ isNatural_zero positive
  have related : List.Forall₂ RecordField.Fills Span.shape.fields
      [⟨"bp", IsWord, true⟩, ⟨"ep", IsWord, true⟩, ⟨"line_nb", IsHalf, false⟩,
        ⟨"bol_pos", IsWord, false⟩] :=
    .cons (fills_scalar takes_size _ nofun) <| .cons (fills_scalar takes_size _ nofun) <|
      .cons (fills_scalar takes_half _ (zero (by decide))) <|
        .cons (fills_scalar takes_size _ (zero (by decide))) .nil
  refine RecordShape.takes_record (by decide) related ?_
  rintro _ (_ | ⟨start, _ | ⟨stop, _ | ⟨line, _ | ⟨lineStart, _ | _⟩⟩⟩⟩)
  obtain ⟨start, first⟩ := (takes_size _).mpr start
  obtain ⟨stop, second⟩ := (takes_size _).mpr stop
  obtain ⟨line, third⟩ := (takes_half _).mpr line
  obtain ⟨lineStart, fourth⟩ := (takes_size _).mpr lineStart
  exact ⟨⟨start, stop, line, lineStart⟩, by simp [Span.ofValues, first, second, third, fourth]⟩

def IsFeedback : Json → Prop := IsRecord
  [⟨"span_id", IsWord, true⟩, ⟨"route", IsHalf, true⟩, ⟨"level", IsLevel, true⟩,
    ⟨"contents", fun _ => True, true⟩]

theorem takes_feedback : Takes Feedback.ofJson IsFeedback := by
  have related : List.Forall₂ RecordField.Fills Feedback.shape.fields
      [⟨"span_id", IsWord, true⟩, ⟨"route", IsHalf, true⟩, ⟨"level", IsLevel, true⟩,
        ⟨"contents", fun _ => True, true⟩] :=
    .cons (fills_scalar takes_word _ nofun) <| .cons (fills_scalar takes_half _ nofun) <|
      .cons ⟨rfl, takes_level.map_unit_iff, rfl, nofun⟩ <|
        .cons ⟨rfl, fun _ => iff_of_true rfl trivial, rfl, nofun⟩ .nil
  refine RecordShape.takes_record (by decide) related ?_
  rintro _ (_ | ⟨state, _ | ⟨route, _ | ⟨level, _ | ⟨_, _ | _⟩⟩⟩⟩)
  obtain ⟨state, first⟩ := (takes_word _).mpr state
  obtain ⟨route, second⟩ := (takes_half _).mpr route
  obtain ⟨level, third⟩ := (takes_level _).mpr level
  exact ⟨⟨state, route, level, _⟩, by simp [Feedback.ofValues, first, second, third]; rfl⟩

def IsContent (v : Json) : Prop := IsText v ∨ IsList IsByte v

theorem takes_content : Takes Content.ofJson IsContent := by
  intro v
  cases v with
  | array items =>
    have bytes := decodeItems_ok_iff takes_byte items
    have noText : ¬ IsText (.array items) := nofun
    rw [IsContent, or_iff_right noText]
    simp only [Content.ofJson, IsList, Json.array.injEq, exists_eq_left', ← bytes]
    cases decodeItems asByte items <;> simp
  | _ => simp [Content.ofJson, IsContent, IsText, IsList]

def IsSetup : Json → Prop := IsRecord [⟨"marker", IsOptional IsText, false⟩]

theorem takes_setup : Takes InterruptSetup.ofJson IsSetup := by
  have related : List.Forall₂ RecordField.Fills InterruptSetup.shape.fields
      [⟨"marker", IsOptional IsText, false⟩] := by
    refine .cons (fills_scalar takes_text.option _ ?_) .nil
    rintro _ ⟨⟩
    exact Or.inl rfl
  refine RecordShape.takes_record (by decide) related ?_
  rintro _ (_ | ⟨marker, _ | _⟩)
  obtain ⟨marker, first⟩ := (takes_text.option _).mpr marker
  exact ⟨⟨marker⟩, by simp [InterruptSetup.ofValues, first, Except.map]⟩

private theorem map_bind_unit {α β ε : Type} (r : Except ε α) (f : α → Except ε β) :
    (r >>= f).map (fun _ => ()) = r >>= fun a => (f a).map fun _ => () := by
  cases r <;> rfl

theorem map_ok_unit {α ε : Type} (a : α) : (Except.ok a : Except ε α).map (fun _ => ()) = .ok () :=
  rfl

private theorem field_place {α ε : Type} {decode : Json → Except ε α} {P : Json → Prop}
    (takes : Takes decode P) (t : Tagged) (i : Nat) (later : Except (TagError ε) Unit) :
    (t.field i (Place.of takes).check >>= fun _ => later) = t.field i decode >>= fun _ => later := by
  unfold Tagged.field Place.of
  cases t.fields[i]? with
  | none => rfl
  | some v =>
    cases made : decode v with
    | error e => simp only [made, Except.map]; rfl
    | ok a => simp only [made, Except.map]; rfl

namespace Search

def vocabulary : Vocabulary Mismatch where
  forms := [⟨"All", []⟩, ⟨"CurrentFile", []⟩, ⟨"Locals", []⟩,
    ⟨"ModulePrefix", [.of takes_text.list]⟩, ⟨"Keyword", [.of takes_text]⟩]
  distinct := by decide

private theorem decidedBy : vocabulary.DecidedBy ofJson := by
  apply Vocabulary.Followed.decidedBy
  constructor
  · intro form mem fields
    simp only [vocabulary, List.mem_cons, List.not_mem_nil, or_false] at mem
    rcases mem with rfl | rfl | rfl | rfl | rfl <;>
      simp [Form.judge, Tagged.checkFrom, map_bind_unit, field_place, map_ok_unit]
  · intro t foreign
    split
    all_goals first | rfl | simp_all [Vocabulary.Owns, vocabulary]

end Search

def IsSearch : Json → Prop := Search.vocabulary.Conforms

theorem takes_search : Takes Command.searchField IsSearch := by
  intro v
  unfold Command.searchField IsSearch
  rw [← (Search.decidedBy v).1]
  cases Search.ofJson v <;> simp

namespace Command

def vocabulary : Vocabulary FieldError where
  forms := [
    ⟨"Init", []⟩,
    ⟨"Add", [.holding takes_word.option, .holding takes_word.option, .holding takes_text,
      .holding takes_bool]⟩,
    ⟨"Exec", [.holding takes_word]⟩,
    ⟨"Cancel", [.holding takes_word]⟩,
    ⟨"Goals", [.holding takes_word]⟩,
    ⟨"Query", [.holding takes_word, .holding takes_half, .holding takes_text]⟩,
    ⟨"Inspect", [.holding takes_word, .holding takes_half, .of takes_search]⟩,
    ⟨"RefreshLoadPath", []⟩]
  distinct := by decide

theorem followed : vocabulary.Followed ofTagged := by
  constructor
  · intro form mem fields
    simp only [vocabulary, List.mem_cons, List.not_mem_nil, or_false] at mem
    rcases mem with rfl | rfl | rfl | rfl | rfl | rfl | rfl | rfl <;>
      simp [ofTagged, Form.judge, Tagged.checkFrom, map_bind_unit, field_place, map_ok_unit]
  · intro t foreign
    unfold ofTagged
    split
    all_goals first | rfl | simp_all [Vocabulary.Owns, vocabulary]

end Command

namespace Answer

def vocabulary : Vocabulary FieldError where
  forms := [
    ⟨"Ready", [.holding takes_word]⟩,
    ⟨"Added", [.holding takes_word, .holding takes_span.option]⟩,
    ⟨"BackTo", [.holding takes_word]⟩,
    ⟨"GoalInfo", [.holding takes_word, .holding takes_any.option]⟩,
    ⟨"Feedback", [.holding takes_feedback]⟩,
    ⟨"CoqExn", [.holding takes_span.option, .holding takes_word.pair.option,
      .holding takes_text]⟩,
    ⟨"JsonExn", [.holding takes_text]⟩]
  distinct := by decide

theorem followed : vocabulary.Followed ofTagged := by
  constructor
  · intro form mem fields
    simp only [vocabulary, List.mem_cons, List.not_mem_nil, or_false] at mem
    rcases mem with rfl | rfl | rfl | rfl | rfl | rfl | rfl <;>
      simp [ofTagged, Form.judge, Tagged.checkFrom, map_bind_unit, field_place, map_ok_unit]
  · intro t foreign
    unfold ofTagged
    split
    all_goals first | rfl | simp_all [Vocabulary.Owns, vocabulary]

end Answer

namespace Notice

def vocabulary : Vocabulary FieldError where
  forms := [
    ⟨"LibLoaded", [.holding takes_text]⟩,
    ⟨"LibError", [.holding takes_text, .holding takes_text]⟩,
    ⟨"LoadedPkg", [.holding takes_text.list]⟩,
    ⟨"Got", [.holding takes_text, .holding takes_byte.list.option]⟩]
  distinct := by decide

theorem followed : vocabulary.Followed ofTagged := by
  constructor
  · intro form mem fields
    simp only [vocabulary, List.mem_cons, List.not_mem_nil, or_false] at mem
    rcases mem with rfl | rfl | rfl | rfl <;>
      simp [ofTagged, Form.judge, Tagged.checkFrom, map_bind_unit, field_place, map_ok_unit]
  · intro t foreign
    unfold ofTagged
    split
    all_goals first | rfl | simp_all [Vocabulary.Owns, vocabulary]

end Notice

namespace Request

def administrative : Vocabulary FieldError where
  forms := [
    ⟨"LoadPkg", [.holding takes_text.list]⟩,
    ⟨"Put", [.holding takes_text, .holding takes_content]⟩,
    ⟨"Get", [.holding takes_text]⟩,
    ⟨"InterruptSetup", [.holding takes_setup]⟩]
  distinct := by decide

theorem administrative_apart (tag : String) (owns : administrative.Owns tag) :
    ¬ Command.vocabulary.Owns tag := by
  simp [Vocabulary.Owns, administrative] at owns
  rcases owns with rfl | rfl | rfl | rfl <;> simp [Vocabulary.Owns, Command.vocabulary]

def vocabulary : Vocabulary FieldError :=
  administrative.union Command.vocabulary administrative_apart

theorem ofTagged_of_foreign {t : Tagged} (foreign : ¬ administrative.Owns t.tag) :
    ofTagged t = (Command.ofTagged t).map .kernel := by
  unfold ofTagged
  split
  all_goals first | rfl | simp_all [Vocabulary.Owns, administrative]

theorem followed : vocabulary.Followed ofTagged := by
  constructor
  · intro form mem fields
    rcases List.mem_append.mp mem with mem | mem
    · simp only [administrative, List.mem_cons, List.not_mem_nil, or_false] at mem
      rcases mem with rfl | rfl | rfl | rfl <;>
        simp [ofTagged, Form.judge, Tagged.checkFrom, map_bind_unit, field_place, map_ok_unit]
    · have foreign : ¬ administrative.Owns form.tag := fun owns =>
        administrative_apart form.tag owns ⟨form, mem, rfl⟩
      have same := Command.followed.known form mem fields
      rw [ofTagged_of_foreign (t := ⟨form.tag, fields⟩) foreign, ← same]
      cases Command.ofTagged ⟨form.tag, fields⟩ <;> rfl
  · intro t foreign
    rw [vocabulary, Vocabulary.owns_union, not_or] at foreign
    rw [ofTagged_of_foreign foreign.1, Command.followed.unknown t foreign.2]
    rfl

end Request

/--
Each kind of message is decoded exactly if the value is an array of a tag of its vocabulary and of
one acceptable field for each place of that tag. Otherwise the error is the one for the first of
these that fails: the value is an array, it begins with a text, this is a tag of the vocabulary, the
number of fields is right, and the fields are acceptable from left to right.
-/
theorem decoders_follow_vocabularies :
    Command.vocabulary.DecidedBy Command.ofJson ∧ Answer.vocabulary.DecidedBy Answer.ofJson ∧
      Notice.vocabulary.DecidedBy Notice.ofJson ∧ Request.vocabulary.DecidedBy Request.ofJson ∧
      Search.vocabulary.DecidedBy Search.ofJson :=
  ⟨Command.followed.decidedBy, Answer.followed.decidedBy, Notice.followed.decidedBy,
    Request.followed.decidedBy, Search.decidedBy⟩

end ProofHost
