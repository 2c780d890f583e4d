import ProofHost.Proofs.Wire.Codec

/-!
Messages read back from their text. Commands, requests, notices and searches always are. An answer
may carry JSON values of the kernel as they are, and these decide whether the answer is read back.
-/

set_option autoImplicit false

namespace ProofHost

open Json

namespace Json

variable {α : Type} {encode : α → Json} {n m : Nat}

@[simp] theorem within_null : Within n .null := ⟨⟨.null, .null⟩, Nat.zero_le n⟩

@[simp] theorem within_bool (b : Bool) : Within n (.bool b) := ⟨⟨.bool b, .bool b⟩, Nat.zero_le n⟩

@[simp] theorem within_string (s : String) : Within n (.string s) :=
  ⟨⟨.string s, .string s⟩, Nat.zero_le n⟩

@[simp] theorem within_ofWord (w : UInt64) : Within n (ofWord w) :=
  ⟨⟨.number _, .natural w⟩, Nat.zero_le n⟩

@[simp] theorem within_array {items : List Json} :
    Within (n + 1) (.array items) ↔ ∀ v ∈ items, Within n v := by
  constructor
  · rintro ⟨plain, fits⟩ v hv
    have inside := depthItems_le.mp (Nat.le_of_succ_le_succ fits)
    exact ⟨plain_array.mp plain v hv, inside v hv⟩
  · intro all
    have inside := depthItems_le.mpr fun v hv => (all v hv).fits
    exact ⟨plain_array.mpr fun v hv => (all v hv).toPlain, Nat.succ_le_succ inside⟩

@[simp] theorem within_object {fields : List (String × Json)} :
    Within (n + 1) (.object fields) ↔
      (fields.Pairwise fun f g => f.1 < g.1) ∧ ∀ f ∈ fields, f.2.Within n := by
  constructor
  · rintro ⟨plain, fits⟩
    obtain ⟨ascending, all⟩ := plain_object.mp plain
    have inside := depthFields_le.mp (Nat.le_of_succ_le_succ fits)
    exact ⟨ascending, fun f hf => ⟨all f hf, inside f hf⟩⟩
  · rintro ⟨ascending, all⟩
    have inside := depthFields_le.mpr fun f hf => (all f hf).fits
    exact ⟨plain_object.mpr ⟨ascending, fun f hf => (all f hf).toPlain⟩, Nat.succ_le_succ inside⟩

theorem within_record (names : List String) {fields : List (String × Json)}
    (same : fields.map Prod.fst = names) (ascending : names.Pairwise (· < ·))
    (all : ∀ f ∈ fields, f.2.Within n) : Within (n + 1) (.object fields) := by
  subst same
  exact within_object.mpr ⟨List.pairwise_map.mp ascending, all⟩

private theorem Within.mono {v : Json} (h : v.Within n) (le : n ≤ m) : v.Within m :=
  ⟨h.toPlain, Nat.le_trans h.fits le⟩

theorem within_ofOption (h : ∀ a, Within n (encode a)) (o : Option α) :
    Within n (ofOption encode o) := by
  cases o with
  | none => exact within_null
  | some a => exact h a

@[simp] theorem within_ofTexts (texts : List String) : Within (n + 1) (ofTexts texts) := by
  simp [ofTexts]

@[simp] theorem within_ofBytes (b : Bytes) : Within (n + 1) (Content.ofBytes b) := by
  simp [Content.ofBytes]

end Json

private theorem Search.within (s : Search) : s.toJson.Within 2 := by
  cases s <;> simp [toJson, Tagged.toJson]

private theorem Command.within (c : Command) : c.toJson.Within 3 := by
  cases c with
  | add editAt parent text verbose =>
    have first := within_ofOption (n := 2) within_ofWord editAt
    have second := within_ofOption (n := 2) within_ofWord parent
    simp [toJson, Tagged.toJson, fields, first, second]
  | inspect state route search => simp [toJson, Tagged.toJson, fields, search.within]
  | _ => simp [toJson, Tagged.toJson, fields]

private theorem InterruptSetup.within (r : InterruptSetup) : r.toJson.Within 1 := by
  simp [toJson, within_ofOption within_string r.marker]

private theorem Request.within (r : Request) : r.toJson.Within 3 := by
  cases r with
  | kernel c => exact c.within
  | put path content => cases content <;> simp [toJson, Tagged.toJson, Content.toJson]
  | setupInterrupt setup => simp [toJson, Tagged.toJson, setup.within.mono]
  | _ => simp [toJson, Tagged.toJson]

theorem Notice.within (n : Notice) : n.toJson.Within 2 := by
  cases n with
  | got path content =>
    have inner := within_ofOption (n := 1) within_ofBytes content
    simp [toJson, Tagged.toJson, inner]
  | _ => simp [toJson, Tagged.toJson]

private theorem Span.within (s : Span) : s.toJson.Within 1 := by
  refine within_record ["bol_pos", "bp", "ep", "line_nb"] rfl (by decide) ?_
  simp

private theorem Feedback.within {f : Feedback} {n : Nat} (h : f.contents.Within n) :
    f.toJson.Within (n + 1) := by
  refine within_record ["contents", "level", "route", "span_id"] rfl (by decide) ?_
  simp [Level.toJson, h]

def Answer.payloads : Answer → List Json
  | goalInfo _ goals => goals.toList
  | feedback f => [f.contents]
  | _ => []

theorem Answer.within {a : Answer} {n : Nat} (h : ∀ v ∈ a.payloads, v.Within n) :
    a.toJson.Within (n + 2) := by
  have span (s : Option Span) : (ofOption Span.toJson s).Within (n + 1) :=
    within_ofOption (fun s => s.within.mono (by omega)) s
  cases a with
  | added state s => simp [toJson, Tagged.toJson, fields, span s]
  | goalInfo state goals =>
    cases goals with
    | none => simp [toJson, Tagged.toJson, fields, ofOption]
    | some goals =>
      have inner := (h goals List.mem_cons_self).mono (Nat.le_succ n)
      simp [toJson, Tagged.toJson, fields, ofOption, inner]
  | feedback f =>
    have inner := Feedback.within (h f.contents List.mem_cons_self)
    simp [toJson, Tagged.toJson, fields, inner]
  | failed location rollback reason =>
    have pair (p : StateId × StateId) : (pairToJson p).Within (n + 1) := by simp [pairToJson]
    simp [toJson, Tagged.toJson, fields, span location, within_ofOption pair rollback]
  | _ => simp [toJson, Tagged.toJson, fields]

theorem Answer.plain {a : Answer} (h : ∀ v ∈ a.payloads, v.Plain) : a.toJson.Plain :=
  (Answer.within (n := depthItems a.payloads) fun v hv => ⟨h v hv, depth_le_depthItems hv⟩).toPlain

private theorem decodeText_render {α : Type} {ofJson : Json → Except (TagError FieldError) α}
    {v : Json}
    {a : α} (within : v.Within maxDepth) (back : ofJson v = .ok a) :
    decodeText ofJson v.render = .ok a := by
  rw [decodeText, parse_render within]
  simp only [back]

theorem Command.decode_encode (c : Command) : decode c.encode = .ok c :=
  decodeText_render (c.within.mono (by decide)) c.ofJson_toJson

theorem Request.decode_encode (r : Request) : decode r.encode = .ok r :=
  decodeText_render (r.within.mono (by decide)) r.ofJson_toJson

theorem Notice.decode_encode (n : Notice) : decode n.encode = .ok n :=
  decodeText_render (n.within.mono (by decide)) n.ofJson_toJson

theorem Search.decode_encode (s : Search) : decode s.encode = .ok s := by
  refine decodeText_render (s.within.mono (by decide)) ?_
  rw [Search.ofJson_toJson]
  rfl

/-- An answer whose text says all of it: the values it carries have their objects in order and no
floating-point number, no container is too deep, and no snapshot is null. -/
structure Answer.Transparent (a : Answer) : Prop where
  snapshot : a.NoNullSnapshot
  ordered : ∀ v ∈ a.payloads, v.Ordered
  noReal : ∀ v ∈ a.payloads, v.NoReal
  fits : a.toJson.depth ≤ maxDepth

theorem Answer.Transparent.within {a : Answer} (h : a.Transparent) : a.toJson.Within maxDepth :=
  ⟨Answer.plain fun v hv => ⟨h.ordered v hv, h.noReal v hv⟩, h.fits⟩

theorem Answer.transparent {a : Answer} {n : Nat} (snapshot : a.NoNullSnapshot)
    (h : ∀ v ∈ a.payloads, v.Within n) (few : n + 2 ≤ maxDepth) : a.Transparent :=
  ⟨snapshot, fun v hv => (h v hv).ordered, fun v hv => (h v hv).noReal,
    Nat.le_trans (Answer.within h).fits few⟩

theorem Answer.decode_encode {a : Answer} (h : a.Transparent) : decode a.encode = .ok a :=
  decodeText_render h.within (Answer.ofJson_toJson h.snapshot)

/-- A notice, or an answer whose text says all of it. -/
def Message.Transparent : Message → Prop
  | answer a => a.Transparent
  | notice _ => True

theorem Message.decode_encode {m : Message} (h : m.Transparent) : decode m.encode = .ok m := by
  cases m with
  | answer a =>
    have back := Message.ofJson_toJson (m := .answer a) (Answer.Transparent.snapshot h)
    exact decodeText_render (Answer.Transparent.within h) back
  | notice n =>
    have back := Message.ofJson_toJson (m := .notice n) trivial
    exact decodeText_render (n.within.mono (by decide)) back

/-- Every message of every kind is the one that its text is decoded to. -/
theorem every_message_reads_back :
    (∀ c : Command, Command.decode c.encode = .ok c) ∧
    (∀ r : Request, Request.decode r.encode = .ok r) ∧
    (∀ n : Notice, Notice.decode n.encode = .ok n) ∧
    (∀ s : Search, Search.decode s.encode = .ok s) ∧
    (∀ a : Answer, a.Transparent → Answer.decode a.encode = .ok a) ∧
    ∀ m : Message, m.Transparent → Message.decode m.encode = .ok m :=
  ⟨Command.decode_encode, Request.decode_encode, Notice.decode_encode, Search.decode_encode,
    fun _ => Answer.decode_encode, fun _ => Message.decode_encode⟩

/-- Feedback that carries an object with a text of several kinds of characters and a list. -/
def sampleFeedback : Feedback where
  state := 2
  route := 7
  level := .warning
  contents := .object [("items", .array [.null, .number (.negative 4)]), ("text", .string "\"é\n")]

theorem every_message_reads_back_feedback :
    (Answer.feedback sampleFeedback).Transparent ∧
    Answer.decode (Answer.feedback sampleFeedback).encode = .ok (.feedback sampleFeedback) ∧
    Message.decode (Message.answer (.feedback sampleFeedback)).encode =
      .ok (.answer (.feedback sampleFeedback)) := by
  have transparent : (Answer.feedback sampleFeedback).Transparent := by
    refine ⟨fun _ => nofun, fun v hv => ?_, fun v hv => ?_, by decide⟩
    · rw [List.mem_singleton.mp hv]
      have names : ["items", "text"].Pairwise (· < ·) := by decide
      refine .object (List.pairwise_map.mp names) ?_
      simp only [List.forall_mem_cons]
      exact ⟨.array (by simp [Ordered.null, Ordered.number]), .string _, nofun⟩
    · rw [List.mem_singleton.mp hv]
      refine .object ?_
      simp only [List.forall_mem_cons]
      exact ⟨.array (by simp [NoReal.null, NoReal.negative]), .string _, nofun⟩
  obtain ⟨-, -, -, -, answers, messages⟩ := every_message_reads_back
  exact ⟨transparent, answers _ transparent, messages (.answer _) transparent⟩

end ProofHost
