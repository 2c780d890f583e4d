import ProofHost.Proofs.Json.Numeral
import ProofHost.Proofs.Json.Quotation

/-!
JSON values read back from their text: every value without floating-point numbers whose objects have
their fields in ascending order, as long as no more containers are inside one another than a reader
accepts.
-/

set_option autoImplicit false

namespace ProofHost.Json

open Numeral (Stops stops_nil stops_cons)

/-- No number in the value is a floating-point number. -/
inductive NoReal : Json → Prop
  | null : NoReal .null
  | bool (b : Bool) : NoReal (.bool b)
  | natural (n : UInt64) : NoReal (.number (.natural n))
  | negative (below : Fin negativeCount) : NoReal (.number (.negative below))
  | string (s : String) : NoReal (.string s)
  | array {items : List Json} (all : ∀ v ∈ items, NoReal v) : NoReal (.array items)
  | object {fields : List (String × Json)} (all : ∀ f ∈ fields, NoReal f.2) :
    NoReal (.object fields)

/-- Every object in the value has its fields in ascending order of their names, each name once. -/
inductive Ordered : Json → Prop
  | null : Ordered .null
  | bool (b : Bool) : Ordered (.bool b)
  | number (n : Number) : Ordered (.number n)
  | string (s : String) : Ordered (.string s)
  | array {items : List Json} (all : ∀ v ∈ items, Ordered v) : Ordered (.array items)
  | object {fields : List (String × Json)} (ascending : fields.Pairwise fun f g => f.1 < g.1)
    (all : ∀ f ∈ fields, Ordered f.2) : Ordered (.object fields)

mutual

def depth : Json → Nat
  | .null => 0
  | .bool _ => 0
  | .number _ => 0
  | .string _ => 0
  | .array items => depthItems items + 1
  | .object fields => depthFields fields + 1

def depthItems : List Json → Nat
  | [] => 0
  | v :: vs => max (depth v) (depthItems vs)

/-- How many containers are inside one another in the value of some field. -/
def depthFields : List (String × Json) → Nat
  | [] => 0
  | (_, v) :: fs => max (depth v) (depthFields fs)

end

theorem depthItems_le {n : Nat} {items : List Json} :
    depthItems items ≤ n ↔ ∀ v ∈ items, v.depth ≤ n := by
  induction items with
  | nil => simp [depthItems]
  | cons v vs ih => rw [depthItems, Nat.max_le, ih, List.forall_mem_cons]

theorem depthFields_le {n : Nat} {fields : List (String × Json)} :
    depthFields fields ≤ n ↔ ∀ f ∈ fields, f.2.depth ≤ n := by
  induction fields with
  | nil => simp [depthFields]
  | cons f fs ih => rw [depthFields, Nat.max_le, ih, List.forall_mem_cons]

theorem depth_le_depthItems {v : Json} {items : List Json} (h : v ∈ items) :
    v.depth ≤ depthItems items :=
  depthItems_le.mp (Nat.le_refl _) v h

private theorem depth_le_depthFields {f : String × Json} {fields : List (String × Json)}
    (h : f ∈ fields) : f.2.depth ≤ depthFields fields :=
  depthFields_le.mp (Nat.le_refl _) f h

variable {ε : Type} {rest : List Char}

/-- A text that begins like a value: with no blank and no closing bracket. -/
def Opens (cs : List Char) : Prop := ∃ c tail, cs = c :: tail ∧ isSpace c = false ∧ c ≠ ']'

theorem skipSpace_cons {c : Char} (h : isSpace c = false) (cs : List Char) :
    skipSpace (c :: cs) = c :: cs := by
  simp [skipSpace, h]

private theorem Opens.skipSpace {cs : List Char} (h : Opens cs) (rest : List Char) :
    skipSpace (cs ++ rest) = cs ++ rest := by
  obtain ⟨c, tail, rfl, space, -⟩ := h
  exact skipSpace_cons space _

/-- A digit is none of the characters that mean something else at the start of a value. -/
private theorem digit_facts {c : Char} (h : Decimal.isDigit c = true) :
    isSpace c = false ∧ c ≠ ']' ∧ c ≠ '[' ∧ c ≠ '\x7b' ∧ c ≠ 'n' ∧ c ≠ 't' ∧ c ≠ 'f' ∧ c ≠ '"' := by
  have ne (x : Char) (hx : Decimal.isDigit x = false) : c ≠ x := by
    rintro rfl
    simp [hx] at h
  refine ⟨?_, ne _ (by decide), ne _ (by decide), ne _ (by decide), ne _ (by decide),
    ne _ (by decide), ne _ (by decide), ne _ (by decide)⟩
  simp [isSpace, ne ' ' (by decide), ne '\n' (by decide), ne '\r' (by decide),
    ne '\t' (by decide)]

private theorem natDigits_head (n : Nat) :
    ∃ c tail, Decimal.natDigits n = c :: tail ∧ Decimal.isDigit c = true := by
  cases front : Decimal.natDigits n with
  | nil => exact absurd front (Decimal.natDigits_ne_nil n)
  | cons c tail =>
    exact ⟨c, tail, rfl, Decimal.isDigit_of_mem_natDigits n c (by simp [front])⟩

private theorem opens_renderChars {v : Json} (h : v.NoReal) : Opens (renderChars v) := by
  cases h with
  | null => exact ⟨_, _, by rw [renderChars], by decide, by decide⟩
  | bool b => cases b <;> exact ⟨_, _, by rw [renderChars], by decide, by decide⟩
  | natural n =>
    obtain ⟨c, tail, digits, digit⟩ := natDigits_head n.toNat
    obtain ⟨space, bracket, -⟩ := digit_facts digit
    exact ⟨c, tail, by rw [renderChars_number, Number.render, digits], space, bracket⟩
  | negative below =>
    exact ⟨'-', _, by rw [renderChars_number, Number.render], by decide, by decide⟩
  | string s =>
    exact ⟨'"', _, by rw [renderChars_string, renderString], by decide, by decide⟩
  | array _ =>
    rename_i items _
    cases items <;> exact ⟨'[', _, by rw [renderChars], by decide, by decide⟩
  | object _ =>
    rename_i fields _
    cases fields <;> exact ⟨'\x7b', _, by rw [renderChars], by decide, by decide⟩

private theorem readValue_of_scalar {depth : Nat} {c : Char} {cs : List Char}
    (space : isSpace c = false) (bracket : c ≠ '[') (brace : c ≠ '\x7b') :
    readValue (ε := ε) depth (c :: cs) = readScalar (c :: cs) := by
  unfold readValue
  rw [skipSpace_cons space]
  split
  · rename_i same
    exact absurd (List.cons.inj same).1 bracket
  · rename_i same
    exact absurd (List.cons.inj same).1 brace
  · rfl

private theorem readValue_null (depth : Nat) (rest : List Char) :
    readValue (ε := ε) depth (renderChars .null ++ rest) = .ok (.null, rest) := by
  rw [renderChars]
  exact (readValue_of_scalar (by decide) (by decide) (by decide)).trans rfl

private theorem readValue_bool (depth : Nat) (b : Bool) (rest : List Char) :
    readValue (ε := ε) depth (renderChars (.bool b) ++ rest) = .ok (.bool b, rest) := by
  cases b <;> rw [renderChars] <;>
    exact (readValue_of_scalar (by decide) (by decide) (by decide)).trans rfl

private theorem readValue_string (depth : Nat) (s : String) (rest : List Char) :
    readValue (ε := ε) depth (renderChars (.string s) ++ rest) = .ok (.string s, rest) := by
  rw [renderChars_string, renderString, List.cons_append, List.append_assoc, List.singleton_append,
    readValue_of_scalar (by decide) (by decide) (by decide)]
  simp [readScalar, readString_body, Except.map]

private theorem readScalar_of_number {c : Char} {cs : List Char} {n : Number}
    (keyword : c ≠ 'n' ∧ c ≠ 't' ∧ c ≠ 'f' ∧ c ≠ '"')
    (h : readNumber (ε := ε) (c :: cs) = .ok (n, rest)) :
    readScalar (ε := ε) (c :: cs) = .ok (.number n, rest) := by
  obtain ⟨hn, ht, hf, hq⟩ := keyword
  simp [readScalar, hn, ht, hf, hq, h, Except.map]

private theorem readValue_natural (depth : Nat) (n : UInt64) (stops : Stops rest) :
    readValue (ε := ε) depth (renderChars (.number (.natural n)) ++ rest) =
      .ok (.number (.natural n), rest) := by
  have number := readNumber_natural (ε := ε) n stops
  obtain ⟨c, tail, digits, digit⟩ := natDigits_head n.toNat
  obtain ⟨space, -, bracket, brace, keyword⟩ := digit_facts digit
  rw [renderChars_number]
  rw [Number.render, digits, List.cons_append] at number ⊢
  rw [readValue_of_scalar space bracket brace]
  exact readScalar_of_number keyword number

private theorem readValue_negative (depth : Nat) (below : Fin negativeCount) (stops : Stops rest) :
    readValue (ε := ε) depth (renderChars (.number (.negative below)) ++ rest) =
      .ok (.number (.negative below), rest) := by
  have number := readNumber_negative (ε := ε) below stops
  rw [renderChars_number]
  rw [Number.render, List.cons_append] at number ⊢
  rw [readValue_of_scalar (by decide) (by decide) (by decide)]
  exact readScalar_of_number (by decide) number

def Blank (gap : List Char) : Prop := ∀ c ∈ gap, isSpace c = true

private theorem blank_nil : Blank [] := List.forall_mem_nil _

private theorem Blank.skipSpace {gap : List Char} (blank : Blank gap) (cs : List Char) :
    skipSpace (gap ++ cs) = Json.skipSpace cs :=
  List.dropWhile_append_of_pos blank

private theorem Blank.stops {gap : List Char} (blank : Blank gap) (stops : Stops rest) :
    Stops (gap ++ rest) := by
  cases gap with
  | nil => exact stops
  | cons c gap =>
    have space := blank c List.mem_cons_self
    simp only [isSpace, Bool.or_eq_true, decide_eq_true_eq] at space
    rcases space with ((rfl | rfl) | rfl) | rfl <;> exact stops_cons (by decide)

/-- Texts that come after a first one, each after a comma and a gap, and what ends them. -/
def furtherText (gap close : List Char) : List (List Char) → List Char
  | [] => close
  | text :: texts => ',' :: (gap ++ text ++ furtherText gap close texts)

/-- Texts between two brackets, up to and with the closing one: each of them after a gap, and the
bracket after a margin unless there is no text. -/
def insideText (bracket : Char) (gap margin : List Char) : List (List Char) → List Char
  | [] => [bracket]
  | text :: texts => gap ++ text ++ furtherText gap (margin ++ [bracket]) texts

private theorem length_furtherText (gap close : List Char) (texts : List (List Char)) :
    texts.length ≤ (furtherText gap close texts).length := by
  induction texts with
  | nil => exact Nat.zero_le _
  | cons text texts ih =>
    simp only [furtherText, List.length_cons, List.length_append]
    omega

private theorem stops_furtherText {margin : List Char} {bracket : Char} (blank : Blank margin)
    (stops : Stops (bracket :: rest)) (gap : List Char) (texts : List (List Char)) :
    Stops (furtherText gap (margin ++ [bracket]) texts ++ rest) := by
  cases texts with
  | nil =>
    rw [furtherText, List.append_assoc]
    exact blank.stops stops
  | cons text texts => exact stops_cons (by decide)

/-- Steps that take up texts one after another, whatever comes after each of them. -/
inductive TakesUp {σ : Type} (step : σ → Reader ε σ) : σ → List (List Char) → σ → Prop
  | nil (state : σ) : TakesUp step state [] state
  | cons {state next after : σ} {text : List Char} {texts : List (List Char)} (opens : Opens text)
    (first : ∀ rest, Stops rest → step state (text ++ rest) = .ok (next, rest))
    (later : TakesUp step next texts after) : TakesUp step state (text :: texts) after

section

variable {σ ν : Type} {state after : σ} {texts : List (List Char)} {gap margin : List Char}

private theorem readMoreItems_of_takesUp {step : σ → Reader ε σ}
    (takesUp : TakesUp step state texts after)
    (blank : Blank gap) (blank' : Blank margin) {fuel : Nat} (enough : texts.length < fuel)
    (rest : List Char) :
    readMoreItems step fuel state (furtherText gap (margin ++ [']']) texts ++ rest) =
      .ok (after, rest) := by
  induction takesUp generalizing fuel with
  | nil state =>
    obtain ⟨fuel, rfl⟩ := Nat.exists_eq_add_one_of_ne_zero (Nat.ne_zero_of_lt enough)
    rw [furtherText, List.append_assoc, List.singleton_append, readMoreItems, blank'.skipSpace,
      skipSpace_cons (by decide)]
    rfl
  | @cons state next after text texts opens first later ih =>
    obtain ⟨fuel, rfl⟩ := Nat.exists_eq_add_one_of_ne_zero (Nat.ne_zero_of_lt enough)
    have stops : Stops (furtherText gap (margin ++ [']']) texts ++ rest) :=
      stops_furtherText blank' (stops_cons (by decide)) gap texts
    have first := first _ stops
    rw [furtherText, List.cons_append, List.append_assoc, List.append_assoc, readMoreItems,
      skipSpace_cons (by decide)]
    simp only [blank.skipSpace, opens.skipSpace]
    obtain ⟨c, tail, rfl, -, noBracket⟩ := opens
    rw [List.cons_append] at first ⊢
    split
    · rename_i same
      exact absurd (List.cons.inj same).1 noBracket
    · rw [first]
      exact ih (Nat.lt_of_succ_lt_succ enough)

theorem readItems_of_takesUp {step : σ → Reader ε σ} (takesUp : TakesUp step state texts after)
    (blank : Blank gap) (blank' : Blank margin) (rest : List Char) :
    readItems step state (insideText ']' gap margin texts ++ rest) = .ok (after, rest) := by
  cases takesUp with
  | nil => rfl
  | @cons _ next _ text texts opens first later =>
    have stops : Stops (furtherText gap (margin ++ [']']) texts ++ rest) :=
      stops_furtherText blank' (stops_cons (by decide)) gap texts
    have first := first _ stops
    have enough : texts.length < (furtherText gap (margin ++ [']']) texts ++ rest).length + 1 := by
      have := length_furtherText gap (margin ++ [']']) texts
      rw [List.length_append]
      omega
    rw [insideText, List.append_assoc, List.append_assoc, readItems, blank.skipSpace,
      opens.skipSpace]
    obtain ⟨c, tail, rfl, -, noBracket⟩ := opens
    rw [List.cons_append] at first ⊢
    split
    · rename_i same
      exact absurd (List.cons.inj same).1 noBracket
    · rw [first]
      exact readMoreItems_of_takesUp later blank blank' enough rest

variable {body : Reader ε ν} {step : σ → ν → Reader ε σ}

private theorem readMoreFields_of_takesUp
    (takesUp : TakesUp (readField body step) state texts after)
    (blank : Blank gap) (blank' : Blank margin) {fuel : Nat} (enough : texts.length < fuel)
    (rest : List Char) :
    readMoreFields body step fuel state (furtherText gap (margin ++ ['\x7d']) texts ++ rest) =
      .ok (after, rest) := by
  induction takesUp generalizing fuel with
  | nil state =>
    obtain ⟨fuel, rfl⟩ := Nat.exists_eq_add_one_of_ne_zero (Nat.ne_zero_of_lt enough)
    rw [furtherText, List.append_assoc, List.singleton_append, readMoreFields, blank'.skipSpace,
      skipSpace_cons (by decide)]
    rfl
  | @cons state next after text texts opens first later ih =>
    obtain ⟨fuel, rfl⟩ := Nat.exists_eq_add_one_of_ne_zero (Nat.ne_zero_of_lt enough)
    have stops : Stops (furtherText gap (margin ++ ['\x7d']) texts ++ rest) :=
      stops_furtherText blank' (stops_cons (by decide)) gap texts
    have first := first _ stops
    rw [furtherText, List.cons_append, List.append_assoc, List.append_assoc, readMoreFields,
      skipSpace_cons (by decide)]
    simp only [blank.skipSpace, opens.skipSpace, first]
    exact ih (Nat.lt_of_succ_lt_succ enough)

theorem readFields_of_takesUp (takesUp : TakesUp (readField body step) state texts after)
    (blank : Blank gap) (blank' : Blank margin) (rest : List Char) :
    readFields body step state (insideText '\x7d' gap margin texts ++ rest) = .ok (after, rest) := by
  cases takesUp with
  | nil => rfl
  | @cons _ next _ text texts opens first later =>
    have stops : Stops (furtherText gap (margin ++ ['\x7d']) texts ++ rest) :=
      stops_furtherText blank' (stops_cons (by decide)) gap texts
    have first := first _ stops
    have enough : texts.length < (furtherText gap (margin ++ ['\x7d']) texts ++ rest).length + 1 := by
      have := length_furtherText gap (margin ++ ['\x7d']) texts
      rw [List.length_append]
      omega
    rw [insideText, List.append_assoc, List.append_assoc, readFields, blank.skipSpace,
      opens.skipSpace]
    split
    · -- What begins with a closing brace is no field.
      rename_i same
      rw [same] at first
      cases first
    · rw [first]
      exact readMoreFields_of_takesUp later blank blank' enough rest

end

structure ReadBack (item : Reader ε Json) (text : List Char) (v : Json) : Prop where
  opens : Opens text
  reads : ∀ rest, Stops rest → item (text ++ rest) = .ok (v, rest)

def takeItem (inner : Nat) (items : List Json) : Reader ε (List Json) := fun cs =>
  (readValue inner cs).map fun (v, r) => (v :: items, r)

private theorem readValue_bracket (inner : Nat) (cs : List Char) :
    readValue (ε := ε) (inner + 1) ('[' :: cs) =
      (readItems (takeItem inner) [] cs).map fun (items, r) => (.array items.reverse, r) := by
  rw [readValue, skipSpace_cons (by decide)]
  rfl

theorem takesUp_items {item : Reader ε Json} {text : Json → List Char} {vs : List Json}
    (back : ∀ v ∈ vs, ReadBack item (text v) v) (items : List Json) :
    TakesUp (fun items cs => (item cs).map fun (v, r) => (v :: items, r)) items (vs.map text)
      (vs.reverse ++ items) := by
  induction vs generalizing items with
  | nil => exact .nil items
  | cons v vs ih =>
    obtain ⟨first, others⟩ := List.forall_mem_cons.mp back
    rw [List.reverse_cons, List.append_assoc]
    refine .cons first.opens (fun rest stops => ?_) (ih others (v :: items))
    rw [first.reads rest stops]
    rfl

private theorem renderItems_eq (vs : List Json) :
    renderItems vs = furtherText [] [']'] (vs.map renderChars) := by
  induction vs with
  | nil => rw [renderItems]; rfl
  | cons v vs ih => rw [renderItems, ih]; rfl

private theorem renderChars_array (vs : List Json) :
    renderChars (.array vs) = '[' :: insideText ']' [] [] (vs.map renderChars) := by
  cases vs with
  | nil => rw [renderChars]; rfl
  | cons v vs => rw [renderChars, renderItems_eq]; rfl

private theorem readValue_array {inner : Nat} {vs : List Json}
    (back : ∀ v ∈ vs, ReadBack (readValue (ε := ε) inner) (renderChars v) v) (rest : List Char) :
    readValue (ε := ε) (inner + 1) (renderChars (.array vs) ++ rest) = .ok (.array vs, rest) := by
  have all := readItems_of_takesUp (takesUp_items back []) blank_nil blank_nil rest
  rw [renderChars_array, List.cons_append, readValue_bracket]
  unfold takeItem
  rw [all]
  simp [Except.map]

def takeField (inner : Nat) (fields : List (String × Json)) (name : String) :
    Reader ε (List (String × Json)) :=
  afterColon (readValue inner) fun v => insertField name v fields

private theorem readValue_brace (inner : Nat) (cs : List Char) :
    readValue (ε := ε) (inner + 1) ('\x7b' :: cs) =
      (readFields readString (takeField inner) [] cs).map fun (fields, r) =>
        (.object fields, r) := by
  rw [readValue, skipSpace_cons (by decide)]
  rfl

private theorem insertField_last {name : String} {fields : List (String × Json)}
    (greater : ∀ f ∈ fields, f.1 < name) (v : Json) :
    insertField name v fields = fields ++ [(name, v)] := by
  induction fields with
  | nil => rfl
  | cons f fs ih =>
    obtain ⟨other, old⟩ := f
    have less : other < name := greater (other, old) List.mem_cons_self
    have notLess : ¬ name < other := fun h => String.lt_irrefl _ (String.lt_trans h less)
    have ne : name ≠ other := by
      rintro rfl
      exact String.lt_irrefl _ less
    simp [insertField, notLess, ne, ih fun g hg => greater g (List.mem_cons_of_mem _ hg)]

/-- The text of a field: its name, a colon with a gap after it, and the text of its value. -/
def fieldText (gap : List Char) (name : String) (text : List Char) : List Char :=
  renderString name ++ ':' :: (gap ++ text)

theorem opens_fieldText (gap : List Char) (name : String) (text : List Char) :
    Opens (fieldText gap name text) := ⟨'"', _, rfl, by decide, by decide⟩

theorem readField_fieldText {σ : Type} {step : σ → String → Reader ε σ} {state : σ} {name : String}
    {item : Reader ε Json} {add : Json → σ} {text gap : List Char} {v : Json}
    (own : step state name = afterColon item add) (back : ReadBack item text v)
    (blank : Blank gap) (stops : Stops rest) :
    readField readString step state (fieldText gap name text ++ rest) = .ok (add v, rest) := by
  have colon : readColon (ε := ε) (':' :: (gap ++ (text ++ rest))) = .ok ((), text ++ rest) := by
    rw [readColon, skipSpace_cons (by decide)]
    simp only [blank.skipSpace, back.opens.skipSpace]
  rw [fieldText, renderString, readField]
  simp only [List.cons_append, List.append_assoc, List.nil_append, readName, readString_body, own,
    afterColon, colon, back.reads rest stops, Except.map]

private theorem takesUp_fields {inner : Nat} {fs : List (String × Json)}
    (back : ∀ f ∈ fs, ReadBack (readValue (ε := ε) inner) (renderChars f.2) f.2)
    (fields : List (String × Json)) (ascending : (fields ++ fs).Pairwise fun f g => f.1 < g.1) :
    TakesUp (readField (ε := ε) readString (takeField inner)) fields
      (fs.map fun f => fieldText [] f.1 (renderChars f.2)) (fields ++ fs) := by
  induction fs generalizing fields with
  | nil =>
    rw [List.append_nil]
    exact .nil fields
  | cons f fs ih =>
    obtain ⟨first, others⟩ := List.forall_mem_cons.mp back
    have greater : ∀ g ∈ fields, g.1 < f.1 := fun g hg =>
      (List.pairwise_append.mp ascending).2.2 g hg f List.mem_cons_self
    rw [List.append_cons] at ascending ⊢
    refine .cons (opens_fieldText _ _ _) (fun rest stops => ?_) (ih others _ ascending)
    rw [readField_fieldText rfl first blank_nil stops, insertField_last greater]

private theorem renderFields_eq (fs : List (String × Json)) :
    renderFields fs =
      furtherText [] ['\x7d'] (fs.map fun f => fieldText [] f.1 (renderChars f.2)) := by
  induction fs with
  | nil => rw [renderFields]; rfl
  | cons f fs ih =>
    rw [renderFields, ih]
    simp [furtherText, fieldText]

private theorem renderChars_object (fs : List (String × Json)) :
    renderChars (.object fs) =
      '\x7b' :: insideText '\x7d' [] [] (fs.map fun f => fieldText [] f.1 (renderChars f.2)) := by
  cases fs with
  | nil => rw [renderChars]; rfl
  | cons f fs =>
    rw [renderChars, renderFields_eq]
    simp [insideText, fieldText]

private theorem readValue_object {inner : Nat} {fs : List (String × Json)}
    (back : ∀ f ∈ fs, ReadBack (readValue (ε := ε) inner) (renderChars f.2) f.2)
    (ascending : fs.Pairwise fun f g => f.1 < g.1) (rest : List Char) :
    readValue (ε := ε) (inner + 1) (renderChars (.object fs) ++ rest) =
      .ok (.object fs, rest) := by
  have all := readFields_of_takesUp (takesUp_fields back [] ascending) blank_nil blank_nil rest
  rw [renderChars_object, List.cons_append, readValue_brace, all]
  rfl

private theorem readBack_of_ordered {v : Json} (ordered : v.Ordered) (noReal : v.NoReal)
    {inner : Nat}
    (fits : v.depth ≤ inner) : ReadBack (readValue (ε := ε) inner) (renderChars v) v := by
  refine ⟨opens_renderChars noReal, ?_⟩
  induction ordered generalizing inner with
  | null => exact fun rest _ => readValue_null inner rest
  | bool b => exact fun rest _ => readValue_bool inner b rest
  | string s => exact fun rest _ => readValue_string inner s rest
  | number n =>
    cases noReal with
    | natural n => exact fun rest stops => readValue_natural inner n stops
    | negative below => exact fun rest stops => readValue_negative inner below stops
  | @array items all ih =>
    have noReals : ∀ v ∈ items, NoReal v := by
      cases noReal
      assumption
    obtain ⟨inner, rfl⟩ : ∃ n, inner = n + 1 := ⟨inner - 1, by rw [depth] at fits; omega⟩
    rw [depth] at fits
    intro rest _
    refine readValue_array (fun v hv => ⟨opens_renderChars (noReals v hv), ?_⟩) rest
    have := depth_le_depthItems hv
    exact ih v hv (noReals v hv) (by omega)
  | @object fields ascending all ih =>
    have noReals : ∀ f ∈ fields, NoReal f.2 := by
      cases noReal
      assumption
    obtain ⟨inner, rfl⟩ : ∃ n, inner = n + 1 := ⟨inner - 1, by rw [depth] at fits; omega⟩
    rw [depth] at fits
    intro rest _
    refine readValue_object (fun f hf => ⟨opens_renderChars (noReals f hf), ?_⟩) ascending rest
    have := depth_le_depthFields hf
    exact ih f hf (noReals f hf) (by omega)

/-- A value whose objects are in order and which has no floating-point number. -/
structure Plain (v : Json) : Prop where
  ordered : v.Ordered
  noReal : v.NoReal

theorem plain_array {items : List Json} : Plain (.array items) ↔ ∀ v ∈ items, v.Plain := by
  constructor
  · rintro ⟨ordered, noReal⟩ v hv
    cases ordered with
    | array ordered =>
      cases noReal with
      | array noReal => exact ⟨ordered v hv, noReal v hv⟩
  · intro all
    exact ⟨.array fun v hv => (all v hv).ordered, .array fun v hv => (all v hv).noReal⟩

theorem plain_object {fields : List (String × Json)} :
    Plain (.object fields) ↔
      (fields.Pairwise fun f g => f.1 < g.1) ∧ ∀ f ∈ fields, f.2.Plain := by
  constructor
  · rintro ⟨ordered, noReal⟩
    cases ordered with
    | object ascending ordered =>
      cases noReal with
      | object noReal => exact ⟨ascending, fun f hf => ⟨ordered f hf, noReal f hf⟩⟩
  · rintro ⟨ascending, all⟩
    exact ⟨.object ascending fun f hf => (all f hf).ordered, .object fun f hf => (all f hf).noReal⟩

/-- A plain value with at most so many containers inside one another. -/
structure Within (n : Nat) (v : Json) : Prop extends Plain v where
  fits : v.depth ≤ n

/-- Reading the text of a plain value gives the value, if as many containers are allowed as it
has. -/
theorem parseWithin_render {v : Json} (h : v.Plain) {limit : Nat} (fits : v.depth ≤ limit) :
    parseWithin limit v.render = some v := by
  have back := (readBack_of_ordered (ε := Empty) h.ordered h.noReal fits).reads [] stops_nil
  rw [List.append_nil] at back
  simp [parseWithin, render, readAll, back, skipSpace, Except.toOption]

theorem parse_render {v : Json} (h : v.Within maxDepth) : parse v.render = some v :=
  parseWithin_render h.toPlain h.fits

end ProofHost.Json
