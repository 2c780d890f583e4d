import ProofHost.Proofs.Wire.Grammar

/-!
Requests and messages are each the union of two vocabularies without a common tag: administrative
requests and commands, notices and answers. So the tag of a value decides whose decoder speaks. An
error inside a field, such as the unknown tag of a search, is never taken for an unknown tag of the
whole, and what one of the two vocabularies refuses is offered to the other only if it does not own
the tag.
-/

set_option autoImplicit false

namespace ProofHost

variable {α β ε : Type}

theorem bind_eq_ok_iff {r : Except ε α} {f : α → Except ε β} {b : β} :
    (r >>= f) = .ok b ↔ ∃ a, r = .ok a ∧ f a = .ok b := by
  cases r with
  | error e => exact iff_of_false nofun nofun
  | ok a => simp

namespace Vocabulary

variable {voc voc' left right : Vocabulary ε} {tag other : String} {fields : List Json} {v : Json}
  {e : TagError ε} {apart : ∀ tag, left.Owns tag → ¬ right.Owns tag}

private theorem owns_of_conforms (conforms : voc.Conforms (.array (.string tag :: fields))) :
    voc.Owns tag := by
  obtain ⟨form, mem, _, same, -⟩ := conforms
  exact ⟨form, mem, by simp_all⟩

private theorem exists_of_conforms (conforms : voc.Conforms v) :
    ∃ tag fields, v = .array (.string tag :: fields) ∧ voc.Owns tag := by
  obtain ⟨form, mem, fields, rfl, -⟩ := conforms
  exact ⟨form.tag, fields, rfl, form, mem, rfl⟩

private theorem refuses_unknownTag_iff (fields : List Json) :
    voc.Refuses (.array (.string tag :: fields)) (.unknownTag other) ↔
      other = tag ∧ ¬ voc.Owns tag := by
  constructor
  · intro refuses
    cases refuses with
    | unknownTag foreign => exact ⟨rfl, foreign⟩
  · rintro ⟨rfl, foreign⟩
    exact .unknownTag foreign

private theorem DecidedBy.unknownTag_iff {decode : Json → Except (TagError ε) α}
    (decided : voc.DecidedBy decode) (failed : decode (.array (.string tag :: fields)) = .error e) :
    e = .unknownTag other ↔ other = tag ∧ ¬ voc.Owns tag := by
  rw [← refuses_unknownTag_iff fields, ← (decided _).2, failed, Except.error.injEq]

private theorem Refuses.of_same_forms (refuses : voc.Refuses (.array (.string tag :: fields)) e)
    (same : ∀ form : Form ε, form.tag = tag → (form ∈ voc.forms ↔ form ∈ voc'.forms)) :
    voc'.Refuses (.array (.string tag :: fields)) e := by
  cases refuses with
  | notArray other => exact absurd rfl (other _)
  | missingTag other => exact absurd rfl (other tag fields)
  | unknownTag foreign =>
    refine .unknownTag fun owns => foreign ?_
    obtain ⟨form, mem, named⟩ := owns
    exact ⟨form, (same form named).mpr mem, named⟩
  | @arity form _ mem differ => exact .arity ((same form rfl).mp mem) differ
  | @field form _ _ _ _ _ _ _ mem places sameLength admitted refused =>
    exact .field ((same form rfl).mp mem) places sameLength admitted refused

private theorem mem_union_of_left (owns : left.Owns tag) (form : Form ε) (named : form.tag = tag) :
    form ∈ (left.union right apart).forms ↔ form ∈ left.forms := by
  refine ⟨fun mem => ?_, fun mem => List.mem_append_left _ mem⟩
  rcases List.mem_append.mp mem with mem | mem
  · exact mem
  · exact absurd ⟨form, mem, named⟩ (apart tag owns)

end Vocabulary

namespace Request

variable {tag : String} {fields : List Json} {v : Json} {r : Request} {c : Command}

private theorem ofJson_of_foreign (foreign : ¬ administrative.Owns tag) :
    ofJson (.array (.string tag :: fields)) =
      (Command.ofJson (.array (.string tag :: fields))).map .kernel :=
  ofTagged_of_foreign (t := ⟨tag, fields⟩) foreign

private theorem isAdministrative_of_owns (owns : administrative.Owns tag)
    (done : ofJson (.array (.string tag :: fields)) = .ok r) : r.isAdministrative = true := by
  obtain ⟨form, mem, rfl⟩ := owns
  simp only [administrative, List.mem_cons, List.not_mem_nil, or_false] at mem
  have done : ofTagged ⟨form.tag, fields⟩ = .ok r := done
  rcases mem with rfl | rfl | rfl | rfl <;> simp only [ofTagged, bind_eq_ok_iff] at done
  case inr.inl =>
    obtain ⟨_, -, _, -, _, -, made⟩ := done
    cases made
    rfl
  all_goals
    obtain ⟨_, -, _, -, made⟩ := done
    cases made
    rfl

private theorem ofJson_kernel_iff : ofJson v = .ok (.kernel c) ↔ Command.ofJson v = .ok c := by
  constructor
  · intro done
    obtain ⟨tag, fields, rfl, -⟩ :=
      Vocabulary.exists_of_conforms ((followed.decidedBy v).1.mp ⟨_, done⟩)
    by_cases owns : administrative.Owns tag
    · have served := isAdministrative_of_owns owns done
      cases served
    · rw [ofJson_of_foreign owns] at done
      cases made : Command.ofJson (.array (.string tag :: fields)) with
      | error e => simp [made, Except.map] at done
      | ok c' => simpa [made, Except.map] using done
  · intro done
    obtain ⟨tag, fields, rfl, owns⟩ :=
      Vocabulary.exists_of_conforms ((Command.followed.decidedBy v).1.mp ⟨_, done⟩)
    rw [ofJson_of_foreign fun own => administrative_apart tag own owns, done, Except.map]

private theorem refuses_of_owns {e : TagError FieldError} (owns : administrative.Owns tag)
    (failed : ofJson (.array (.string tag :: fields)) = .error e) :
    administrative.Refuses (.array (.string tag :: fields)) e := by
  have refuses := ((followed.decidedBy _).2 e).mp failed
  exact refuses.of_same_forms (Vocabulary.mem_union_of_left owns)

end Request

private theorem Notice.vocabulary_apart (tag : String) (owns : Notice.vocabulary.Owns tag) :
    ¬ Answer.vocabulary.Owns tag := by
  simp only [Vocabulary.Owns, Notice.vocabulary, List.mem_cons, List.not_mem_nil, or_false,
    exists_eq_or_imp, exists_eq_left] at owns
  rcases owns with rfl | rfl | rfl | rfl <;> simp [Vocabulary.Owns, Answer.vocabulary]

namespace Message

variable {tag : String} {fields : List Json} {v : Json} {n : Notice} {a : Answer}

private theorem ofJson_of_owns (owns : Notice.vocabulary.Owns tag) :
    ofJson (.array (.string tag :: fields)) =
      (Notice.ofJson (.array (.string tag :: fields))).map .notice := by
  unfold ofJson
  split
  · rename_i n done
    rw [done, Except.map]
  · rename_i other failed
    have refuses := ((Notice.followed.decidedBy _).2 _).mp failed
    exact absurd owns ((Vocabulary.refuses_unknownTag_iff fields).mp refuses).2
  · rename_i e _ failed
    rw [failed, Except.map]

private theorem ofJson_of_foreign (foreign : ¬ Notice.vocabulary.Owns tag) :
    ofJson (.array (.string tag :: fields)) =
      (Answer.ofJson (.array (.string tag :: fields))).map .answer := by
  have unknown : Notice.ofJson (.array (.string tag :: fields)) = .error (.unknownTag tag) :=
    ((Notice.followed.decidedBy _).2 _).mpr (.unknownTag foreign)
  unfold ofJson
  simp only [unknown]

private theorem ofJson_notice_iff : ofJson v = .ok (.notice n) ↔ Notice.ofJson v = .ok n := by
  unfold ofJson
  split
  · rename_i made
    simp [made]
  · rename_i failed
    rw [failed]
    cases Answer.ofJson v <;> simp [Except.map]
  · rename_i failed
    simp [failed]

private theorem not_both (notice : Notice.ofJson v = .ok n) : ¬ Answer.ofJson v = .ok a := by
  intro answer
  obtain ⟨tag, fields, rfl, owns⟩ :=
    Vocabulary.exists_of_conforms ((Notice.followed.decidedBy v).1.mp ⟨_, notice⟩)
  apply Notice.vocabulary_apart tag owns
  exact Vocabulary.owns_of_conforms ((Answer.followed.decidedBy _).1.mp ⟨_, answer⟩)

theorem ofJson_answer_iff : ofJson v = .ok (.answer a) ↔ Answer.ofJson v = .ok a := by
  constructor
  · intro done
    unfold ofJson at done
    split at done
    · cases done
    · cases made : Answer.ofJson v with
      | error e => simp [made, Except.map] at done
      | ok a' => simpa [made, Except.map] using done
    · cases done
  · intro done
    obtain ⟨tag, fields, rfl, owns⟩ :=
      Vocabulary.exists_of_conforms ((Answer.followed.decidedBy v).1.mp ⟨_, done⟩)
    rw [ofJson_of_foreign fun own => Notice.vocabulary_apart tag own owns, done, Except.map]

end Message

section Texts

variable {text : String} {v : Json} {a : α} {b : β} {e : DecodeError} {tag : String}
  {fields : List Json} {decode : Json → Except (TagError FieldError) α}
  {decode' : Json → Except (TagError FieldError) β}

theorem decodeText_ok_iff :
    decodeText decode text = .ok a ↔ ∃ v, Json.parse text = some v ∧ decode v = .ok a := by
  unfold decodeText
  cases Json.parse text with
  | none => simp
  | some v => cases made : decode v <;> simp [made]

private theorem decodeText_error_iff (parsed : Json.parse text = some v) :
    decodeText decode text = .error e ↔ ∃ cause, e = .tagged cause ∧ decode v = .error cause := by
  unfold decodeText
  simp only [parsed]
  cases decode v <;> simp [eq_comm]

private theorem decodeText_ok_congr (same : ∀ v, decode v = .ok a ↔ decode' v = .ok b) :
    decodeText decode text = .ok a ↔ decodeText decode' text = .ok b := by
  simp only [decodeText_ok_iff, same]

private theorem Request.decode_kernel_iff {c : Command} :
    Request.decode text = .ok (.kernel c) ↔ Command.decode text = .ok c :=
  decodeText_ok_congr fun _ => Request.ofJson_kernel_iff

private theorem Request.decode_error
    (parsed : Json.parse text = some (.array (.string tag :: fields)))
    (failed : Request.decode text = .error e) :
    (Request.administrative.Owns tag → ∃ cause, e = .tagged cause ∧
      Request.administrative.Refuses (.array (.string tag :: fields)) cause) ∧
    (Command.vocabulary.Owns tag → Command.decode text = .error e) ∧
    ∀ other, e = .tagged (.unknownTag other) ↔
      other = tag ∧ ¬ Request.administrative.Owns tag ∧ ¬ Command.vocabulary.Owns tag := by
  obtain ⟨cause, rfl, reason⟩ := (decodeText_error_iff parsed).mp failed
  refine ⟨fun owns => ⟨cause, rfl, Request.refuses_of_owns owns reason⟩, ?_, ?_⟩
  · intro owns
    apply (decodeText_error_iff parsed).mpr
    rw [Request.ofJson_of_foreign fun own => Request.administrative_apart tag own owns,
      map_eq_error_iff] at reason
    exact ⟨cause, rfl, reason⟩
  · intro other
    rw [← not_or, ← Vocabulary.owns_union, DecodeError.tagged.injEq]
    exact Request.followed.decidedBy.unknownTag_iff reason

private theorem Message.decode_error
    (parsed : Json.parse text = some (.array (.string tag :: fields)))
    (failed : Message.decode text = .error e) :
    (Notice.vocabulary.Owns tag → Notice.decode text = .error e) ∧
    (Answer.vocabulary.Owns tag → Answer.decode text = .error e) ∧
    ∀ other, e = .tagged (.unknownTag other) ↔
      other = tag ∧ ¬ Notice.vocabulary.Owns tag ∧ ¬ Answer.vocabulary.Owns tag := by
  obtain ⟨cause, rfl, reason⟩ := (decodeText_error_iff parsed).mp failed
  by_cases owns : Notice.vocabulary.Owns tag
  · rw [Message.ofJson_of_owns owns, map_eq_error_iff] at reason
    refine ⟨fun _ => (decodeText_error_iff parsed).mpr ⟨cause, rfl, reason⟩, ?_, ?_⟩
    · intro own
      exact absurd own (Notice.vocabulary_apart tag owns)
    · intro other
      have known : cause = .unknownTag other ↔ _ :=
        Notice.followed.decidedBy.unknownTag_iff reason
      simp [known, owns]
  · rw [Message.ofJson_of_foreign owns, map_eq_error_iff] at reason
    refine ⟨fun own => absurd own owns, fun _ => ?_, ?_⟩
    · exact (decodeText_error_iff parsed).mpr ⟨cause, rfl, reason⟩
    · intro other
      have known : cause = .unknownTag other ↔ _ :=
        Answer.followed.decidedBy.unknownTag_iff reason
      simp [known, owns]

end Texts

/--
A request is a command exactly if the text is decoded as a command, and the requests that the host
serves by itself are no commands. No text is both a notice and an answer, and messages are the one
or the other as these are decoded by themselves. If a tagged array fails, then the error is the one
of the vocabulary that owns the tag, and the tag is reported as unknown exactly if neither owns it.
-/
theorem unions_told_apart (text : String) :
    (∀ c, Request.decode text = .ok (.kernel c) ↔ Command.decode text = .ok c) ∧
    (∀ r, Request.decode text = .ok r → r.isAdministrative = true →
      ∃ e, Command.decode text = .error e) ∧
    (¬ ∃ n a, Notice.decode text = .ok n ∧ Answer.decode text = .ok a) ∧
    (∀ n, Message.decode text = .ok (.notice n) ↔ Notice.decode text = .ok n) ∧
    (∀ a, Message.decode text = .ok (.answer a) ↔ Answer.decode text = .ok a) ∧
    ∀ tag fields, Json.parse text = some (.array (.string tag :: fields)) →
      (∀ e, Request.decode text = .error e →
        (Request.administrative.Owns tag → ∃ cause, e = .tagged cause ∧
          Request.administrative.Refuses (.array (.string tag :: fields)) cause) ∧
        (Command.vocabulary.Owns tag → Command.decode text = .error e) ∧
        ∀ other, e = .tagged (.unknownTag other) ↔
          other = tag ∧ ¬ Request.administrative.Owns tag ∧ ¬ Command.vocabulary.Owns tag) ∧
      (∀ e, Message.decode text = .error e →
        (Notice.vocabulary.Owns tag → Notice.decode text = .error e) ∧
        (Answer.vocabulary.Owns tag → Answer.decode text = .error e) ∧
        ∀ other, e = .tagged (.unknownTag other) ↔
          other = tag ∧ ¬ Notice.vocabulary.Owns tag ∧ ¬ Answer.vocabulary.Owns tag) := by
  refine ⟨fun _ => Request.decode_kernel_iff, ?_, ?_, fun _ => decodeText_ok_congr fun _ =>
    Message.ofJson_notice_iff, fun _ => decodeText_ok_congr fun _ => Message.ofJson_answer_iff, ?_⟩
  · intro r done served
    cases made : Command.decode text with
    | error e => exact ⟨e, rfl⟩
    | ok c =>
      rw [Request.decode_kernel_iff.mpr made] at done
      cases done
      cases served
  · rintro ⟨n, a, notice, answer⟩
    obtain ⟨v, parsed, notice⟩ := decodeText_ok_iff.mp notice
    obtain ⟨v', again, answer⟩ := decodeText_ok_iff.mp answer
    obtain rfl := Option.some.inj (parsed.symm.trans again)
    exact Message.not_both notice answer
  · intro tag fields parsed
    exact ⟨fun _ => Request.decode_error parsed, fun _ => Message.decode_error parsed⟩

theorem unions_told_apart_search :
    let text := "[\"Inspect\",1,0,[\"Nowhere\"]]"
    let e : DecodeError := .tagged (.field "Inspect" 2 (.search (.unknownTag "Nowhere")))
    Request.decode text = .error e ∧ Command.decode text = .error e ∧
      ∀ other, e ≠ .tagged (.unknownTag other) := by
  intro text e
  have parsed : Json.parse text = some (.array [.string "Inspect", Json.ofWord 1, Json.ofWord 0,
      .array [.string "Nowhere"]]) := by
    decide +kernel
  have failed : Request.decode text = .error e := by decide +kernel
  have owns : Command.vocabulary.Owns "Inspect" := by simp [Vocabulary.Owns, Command.vocabulary]
  obtain ⟨-, -, -, -, -, errors⟩ := unions_told_apart text
  obtain ⟨-, command, unknown⟩ := (errors _ _ parsed).1 e failed
  refine ⟨failed, command owns, fun other same => ?_⟩
  exact ((unknown other).mp same).2.2 owns

end ProofHost
