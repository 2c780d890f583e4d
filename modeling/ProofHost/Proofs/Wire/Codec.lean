import ProofHost.Proofs.Json.RoundTrip
import ProofHost.Wire.Text

/-!
The decoders undo the encoders: those of numbers, spans, feedback and file contents, those of the
lists, pairs and optional values made of them, and those of whole messages. An optional value needs
that nothing present is encoded as null, which is why a snapshot of goals that is null is lost.
-/

set_option autoImplicit false

namespace ProofHost

open Json

variable {α ε : Type}

@[simp] theorem ok_bind {β : Type} (a : α) (f : α → Except ε β) : Except.ok a >>= f = f a := rfl

@[simp] theorem pure_eq_ok (a : α) : (pure a : Except ε α) = .ok a := rfl

namespace Json

@[simp] theorem asWord_ofWord (n : UInt64) : asWord (ofWord n) = .ok n := by
  have fits : n.toNat < UInt64.size := n.toNat_lt
  simp [asWord, wordCalled, natBelow, ofWord, fits, Except.map]

@[simp] theorem asSize_ofWord (n : UInt64) : asSize (ofWord n) = .ok n := by
  have fits : n.toNat < UInt64.size := n.toNat_lt
  simp [asSize, wordCalled, natBelow, ofWord, fits, Except.map]

@[simp] theorem asHalf_ofWord (n : UInt32) : asHalf (ofWord n.toUInt64) = .ok n := by
  have fits : n.toNat < UInt32.size := n.toNat_lt
  simp [asHalf, natBelow, ofWord, fits, Except.map]

@[simp] theorem asByte_ofWord (n : UInt8) : asByte (ofWord n.toUInt64) = .ok n := by
  have fits : n.toNat < UInt8.size := n.toNat_lt
  simp [asByte, natBelow, ofWord, fits, Except.map]

@[simp] theorem asText_string (s : String) : asText (.string s) = .ok s := rfl

@[simp] theorem asBool_bool (b : Bool) : asBool (.bool b) = .ok b := rfl

/-- A decoder takes back all that an encoder makes, and that is never null. -/
structure Undoes (decode : Decoder α) (encode : α → Json) : Prop where
  back : ∀ a, decode (encode a) = .ok a
  notNull : ∀ a, encode a ≠ .null

variable {decode : Decoder α} {encode : α → Json}

theorem asOption_of_ne_null {v : Json} (h : v ≠ .null) :
    asOption decode v = (decode v).map some := by
  cases v with
  | null => exact absurd rfl h
  | _ => rfl

theorem Undoes.option (h : Undoes decode encode) (o : Option α) :
    asOption decode (ofOption encode o) = .ok o := by
  cases o with
  | none => rfl
  | some a => rw [ofOption, asOption_of_ne_null (h.notNull a), h.back, Except.map]

private theorem decodeItems_map (back : ∀ a, decode (encode a) = .ok a) (as : List α) :
    decodeItems decode (as.map encode) = .ok as := by
  induction as with
  | nil => rfl
  | cons a as ih => simp only [List.map_cons, decodeItems, back a, ih]

private theorem undoes_word : Undoes asWord ofWord := ⟨asWord_ofWord, fun _ => by simp [ofWord]⟩

theorem undoes_text : Undoes asText .string := ⟨asText_string, fun _ => by simp⟩

@[simp] theorem asList_ofTexts (texts : List String) : asList asText (ofTexts texts) = .ok texts :=
  decodeItems_map undoes_text.back texts

private theorem undoes_bytes : Undoes (asList asByte) Content.ofBytes :=
  ⟨fun b => decodeItems_map asByte_ofWord b, fun _ => by simp [Content.ofBytes]⟩

private theorem undoes_pair : Undoes (asPair asWord) Answer.pairToJson := by
  refine ⟨fun p => ?_, fun p => by simp [Answer.pairToJson]⟩
  simp [Answer.pairToJson, asPair]

end Json

private theorem Span.ofJson_toJson (s : Span) : Span.ofJson s.toJson = .ok s := by
  have line := asHalf_ofWord s.line
  simp only [Span.ofJson, Span.toJson, RecordShape.ofJson, RecordShape.fill, RecordShape.empty,
    RecordShape.position?, Span.shape]
  simp [RecordField.scalar, List.findIdx?_cons, line, Except.map, RecordShape.complete,
    Span.ofValues]

private theorem Level.ofJson_toJson (level : Level) : Level.ofJson level.toJson = .ok level := by
  cases level <;> rfl

private theorem Feedback.ofJson_toJson (f : Feedback) : Feedback.ofJson f.toJson = .ok f := by
  have route := asHalf_ofWord f.route
  have level := Level.ofJson_toJson f.level
  simp only [Feedback.ofJson, Feedback.toJson, RecordShape.ofJson, RecordShape.fill,
    RecordShape.empty, RecordShape.position?, Feedback.shape]
  simp [RecordField.scalar, RecordField.any, List.findIdx?_cons, route, level, Except.map,
    RecordShape.complete, Feedback.ofValues]

private theorem InterruptSetup.ofJson_toJson (r : InterruptSetup) :
    InterruptSetup.ofJson r.toJson = .ok r := by
  have marker := undoes_text.option r.marker
  simp only [InterruptSetup.ofJson, InterruptSetup.toJson, RecordShape.ofJson, RecordShape.fill,
    RecordShape.empty, RecordShape.position?, InterruptSetup.shape]
  simp [RecordField.scalar, List.findIdx?_cons, marker, Except.map, RecordShape.complete,
    InterruptSetup.ofValues]

private theorem Content.ofJson_toJson (c : Content) : Content.ofJson c.toJson = .ok c := by
  cases c with
  | text s => rfl
  | bytes b =>
    have items := decodeItems_map asByte_ofWord b
    simp [Content.toJson, Content.ofBytes, Content.ofJson, items]

private theorem undoes_span : Undoes Span.ofJson Span.toJson :=
  ⟨Span.ofJson_toJson, fun _ => by simp [Span.toJson]⟩

namespace Tagged

@[simp] theorem ofJson_toJson (t : Tagged) : Tagged.ofJson (ε := ε) t.toJson = .ok t := rfl

end Tagged

theorem Search.ofJson_toJson (s : Search) : Search.ofJson s.toJson = .ok s := by
  cases s <;> simp [Search.ofJson, Search.toJson, Tagged.arity, Tagged.field]

namespace Command

private theorem ofTagged_fields (c : Command) : ofTagged ⟨c.tag, c.fields⟩ = .ok c := by
  cases c with
  | add editAt parent text verbose =>
    have first := undoes_word.option editAt
    have second := undoes_word.option parent
    simp [ofTagged, tag, fields, Tagged.arity, Tagged.field, inField, first, second]
  | inspect state route search =>
    have inner := Search.ofJson_toJson search
    simp [ofTagged, tag, fields, Tagged.arity, Tagged.field, inField, searchField, inner]
  | _ => simp [ofTagged, tag, fields, Tagged.arity, Tagged.field, inField]

theorem ofJson_toJson (c : Command) : ofJson c.toJson = .ok c := ofTagged_fields c

end Command

namespace Request

private theorem ofTagged_command (c : Command) :
    ofTagged ⟨c.tag, c.fields⟩ = (Command.ofTagged ⟨c.tag, c.fields⟩).map .kernel := by
  cases c <;> simp [ofTagged, Command.tag]

theorem ofJson_toJson (r : Request) : ofJson r.toJson = .ok r := by
  cases r with
  | kernel c =>
    calc ofJson c.toJson = ofTagged ⟨c.tag, c.fields⟩ := rfl
      _ = (Command.ofTagged ⟨c.tag, c.fields⟩).map .kernel := ofTagged_command c
      _ = .ok (.kernel c) := by rw [Command.ofTagged_fields, Except.map]
  | put path content =>
    have inner := Content.ofJson_toJson content
    simp [toJson, ofJson, ofTagged, Tagged.arity, Tagged.field, inField, inner]
  | setupInterrupt setup =>
    have inner := InterruptSetup.ofJson_toJson setup
    simp [toJson, ofJson, ofTagged, Tagged.arity, Tagged.field, inField, inner]
  | _ => simp [toJson, ofJson, ofTagged, Tagged.arity, Tagged.field, inField]

end Request

theorem Notice.ofJson_toJson (n : Notice) : Notice.ofJson n.toJson = .ok n := by
  cases n with
  | got path content =>
    have inner := undoes_bytes.option content
    simp [Notice.toJson, Notice.ofJson, Notice.ofTagged, Tagged.arity, Tagged.field, inField,
      inner]
  | _ =>
    simp [Notice.toJson, Notice.ofJson, Notice.ofTagged, Tagged.arity, Tagged.field, inField]

namespace Answer

def NoNullSnapshot (a : Answer) : Prop := ∀ state, a ≠ .goalInfo state (some .null)

private theorem asOption_ofSnapshot {goals : Option Json} (h : goals ≠ some .null) :
    asOption asAny (ofOption id goals) = .ok goals := by
  cases goals with
  | none => rfl
  | some v => exact asOption_of_ne_null fun null => h (congrArg some null)

theorem ofJson_toJson {a : Answer} (h : a.NoNullSnapshot) : ofJson a.toJson = .ok a := by
  cases a with
  | added state span =>
    have inner := undoes_span.option span
    simp [toJson, ofJson, ofTagged, tag, fields, Tagged.arity, Tagged.field, inField, inner]
  | goalInfo state goals =>
    have inner := @asOption_ofSnapshot goals fun null => h state (by rw [null])
    simp [toJson, ofJson, ofTagged, tag, fields, Tagged.arity, Tagged.field, inField, inner]
  | feedback f =>
    have inner := Feedback.ofJson_toJson f
    simp [toJson, ofJson, ofTagged, tag, fields, Tagged.arity, Tagged.field, inField, inner]
  | failed location rollback reason =>
    have first := undoes_span.option location
    have second := undoes_pair.option rollback
    simp [toJson, ofJson, ofTagged, tag, fields, Tagged.arity, Tagged.field, inField, first,
      second]
  | _ => simp [toJson, ofJson, ofTagged, tag, fields, Tagged.arity, Tagged.field, inField]

end Answer

private theorem Notice.ofTagged_answer (a : Answer) :
    Notice.ofTagged ⟨a.tag, a.fields⟩ = .error (.unknownTag a.tag) := by
  cases a <;> simp [Notice.ofTagged, Answer.tag, Tagged.unknown]

def Message.NoNullSnapshot : Message → Prop
  | .answer a => a.NoNullSnapshot
  | .notice _ => True

theorem Message.ofJson_toJson {m : Message} (h : m.NoNullSnapshot) :
    Message.ofJson m.toJson = .ok m := by
  cases m with
  | notice n => rw [Message.toJson, Message.ofJson, Notice.ofJson_toJson]
  | answer a =>
    have other : Notice.ofJson a.toJson = .error (.unknownTag a.tag) := Notice.ofTagged_answer a
    rw [Message.toJson, Message.ofJson, other, Answer.ofJson_toJson h, Except.map]

end ProofHost
