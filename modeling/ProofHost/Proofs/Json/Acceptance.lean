import Mathlib.Data.List.Forall2
import Mathlib.Data.List.Nodup
import ProofHost.Proofs.Wire.Codec

/-!
Which values the decoders take, said without the decoders: numbers below a bound, texts, lists and
pairs of such values, and records, written with the names of their columns or as a list in the order
of the columns. A decoder takes a value whatever it makes of it; what it refuses is everything else.
-/

set_option autoImplicit false

namespace ProofHost

namespace Json

variable {α β ε : Type} {decode : Json → Except ε α} {item : Decoder α} {P : Json → Prop}

def Takes (decode : Json → Except ε α) (P : Json → Prop) : Prop :=
  ∀ v, (∃ a, decode v = .ok a) ↔ P v

private theorem Takes.map (h : Takes decode P) (f : α → β) :
    Takes (fun v => (decode v).map f) P := by
  intro v
  rw [← h v]
  cases made : decode v <;> simp [Except.map, made]

theorem Takes.map_unit_iff (h : Takes decode P) (v : Json) :
    (decode v).map (fun _ => ()) = .ok () ↔ P v := by
  rw [← h v]
  cases decode v <;> simp [Except.map]

theorem Takes.inField (h : Takes item P) : Takes (Json.inField item) P := by
  intro v
  rw [← h v]
  unfold Json.inField
  cases item v <;> simp

def IsNatural (limit : Nat) (v : Json) : Prop :=
  ∃ n : UInt64, v = .number (.natural n) ∧ n.toNat < limit

def IsWord : Json → Prop := IsNatural UInt64.size

def IsHalf : Json → Prop := IsNatural UInt32.size

def IsByte : Json → Prop := IsNatural UInt8.size

def IsText (v : Json) : Prop := ∃ s, v = .string s

def IsBool (v : Json) : Prop := ∃ b, v = .bool b

def IsOptional (P : Json → Prop) (v : Json) : Prop := v = .null ∨ P v

private theorem takes_natBelow (limit : Nat) (want : String) :
    Takes (natBelow limit want) (IsNatural limit) := by
  intro v
  constructor
  · rintro ⟨n, done⟩
    unfold natBelow at done
    split at done
    · split at done
      · rename_i n less
        exact ⟨n, rfl, less⟩
      · cases done
    · cases done
    · cases done
  · rintro ⟨n, rfl, less⟩
    exact ⟨⟨n.toNat, less⟩, by rw [natBelow, dif_pos less]⟩

theorem takes_word : Takes asWord IsWord := (takes_natBelow UInt64.size "u64").map _

theorem takes_size : Takes asSize IsWord := (takes_natBelow UInt64.size "usize").map _

theorem takes_half : Takes asHalf IsHalf := (takes_natBelow UInt32.size "u32").map _

theorem takes_byte : Takes asByte IsByte := (takes_natBelow UInt8.size "u8").map _

theorem takes_text : Takes asText IsText := by
  intro v
  cases v <;> simp [asText, textCalled, IsText]

theorem takes_bool : Takes asBool IsBool := by
  intro v
  cases v <;> simp [asBool, IsBool]

theorem takes_any : Takes asAny fun _ => True := by
  intro v
  simp [asAny]

theorem Takes.option (h : Takes item P) : Takes (asOption item) (IsOptional P) := by
  intro v
  by_cases null : v = .null
  · subst null
    exact iff_of_true ⟨none, rfl⟩ (Or.inl rfl)
  · rw [asOption_of_ne_null null, h.map some v, IsOptional, or_iff_right null]

def IsList (P : Json → Prop) (v : Json) : Prop := ∃ items, v = .array items ∧ ∀ x ∈ items, P x

def IsPair (P : Json → Prop) (v : Json) : Prop := ∃ a b, v = .array [a, b] ∧ P a ∧ P b

theorem decodeItems_ok_iff (h : Takes item P) (items : List Json) :
    (∃ as, decodeItems item items = .ok as) ↔ ∀ x ∈ items, P x := by
  induction items with
  | nil => simp [decodeItems]
  | cons v items ih =>
    rw [List.forall_mem_cons, ← ih, ← h v, decodeItems]
    cases item v with
    | error e => simp
    | ok a => cases decodeItems item items <;> simp

theorem Takes.list (h : Takes item P) : Takes (asList item) (IsList P) := by
  intro v
  cases v with
  | array items =>
    have taken := decodeItems_ok_iff h items
    simpa [asList, IsList] using taken
  | _ => simp [asList, IsList]

theorem Takes.pair (h : Takes item P) : Takes (asPair item) (IsPair P) := by
  intro v
  cases v with
  | array items =>
    rcases items with _ | ⟨a, _ | ⟨b, rest⟩⟩
    · simp [asPair, IsPair]
    · simp only [asPair, IsPair]
      cases item a <;> simp
    · have first := h a
      have second := h b
      simp only [asPair, IsPair]
      cases itemA : item a with
      | error e => simp_all
      | ok x =>
        cases itemB : item b with
        | error e => simp_all
        | ok y => cases rest <;> simp_all
  | _ => simp [asPair, IsPair]

/-- A column of a record: its name, what it admits, and whether it has to be given. -/
structure Column where
  name : String
  Admits : Json → Prop
  required : Bool

/-- A record of some columns: an object that fills them by name, whatever else it holds, or a list
that fills them in order. Only columns that are not required may be left out, in a list at its
end. -/
def IsRecord (columns : List Column) : Json → Prop
  | .object fields => ∀ c ∈ columns,
    (∀ x, (c.name, x) ∈ fields → c.Admits x) ∧ (c.required = true → ∃ x, (c.name, x) ∈ fields)
  | .array items =>
    List.Forall₂ Column.Admits (columns.take items.length) items ∧
      ∀ c ∈ columns.drop items.length, c.required = false
  | _ => False

end Json

/-- The field is read as the column says, and its fallback, if it has one, would be admitted. -/
structure RecordField.Fills (f : RecordField) (c : Json.Column) : Prop where
  name : f.name = c.name
  check : ∀ v, f.check v = .ok () ↔ c.Admits v
  fallback : f.fallback.isSome = !c.required
  default : ∀ v, f.fallback = some v → c.Admits v

namespace RecordShape

open Json (Column IsRecord)

variable {shape : RecordShape} {fields : List RecordField} {columns : List Column}
  {given : List (String × Json)} {held : String → Option Json} {values items : List Json}
  {name : String} {x : Json}

private theorem forall_mem_iff_of_forall₂ {α β : Type} {R : α → β → Prop} {P : α → Prop}
    {Q : β → Prop}
    {as : List α} {bs : List β} (related : List.Forall₂ R as bs)
    (same : ∀ a b, R a b → (P a ↔ Q b)) : (∀ a ∈ as, P a) ↔ ∀ b ∈ bs, Q b := by
  induction related with
  | nil => simp
  | cons first _ ih => rw [List.forall_mem_cons, List.forall_mem_cons, same _ _ first, ih]

def hold (held : String → Option Json) (field : String × Json) (name : String) : Option Json :=
  if name = field.1 then some field.2 else held name

def slotsOf (fields : List RecordField) (held : String → Option Json) : Slots :=
  fields.map fun f => held f.name

theorem slotsOf_hold (distinct : (fields.map RecordField.name).Nodup) {i : Nat} {f : RecordField}
    (at_i : fields[i]? = some f) (x : Json) :
    (slotsOf fields held).set i (some x) = slotsOf fields (hold held (f.name, x)) := by
  induction fields generalizing i with
  | nil => simp at at_i
  | cons first fields ih =>
    obtain ⟨new, distinct⟩ := List.nodup_cons.mp distinct
    cases i with
    | zero =>
      obtain rfl : first = f := by simpa using at_i
      have others : slotsOf fields held = slotsOf fields (hold held (first.name, x)) := by
        apply List.map_congr_left
        intro g mem
        have ne : g.name ≠ first.name := fun same =>
          new (same ▸ List.mem_map_of_mem mem)
        simp [hold, ne]
      simp only [slotsOf] at others
      simp [slotsOf, others, hold]
    | succ i =>
      have at_i : fields[i]? = some f := by simpa using at_i
      have ne : first.name ≠ f.name := fun same =>
        new (same ▸ List.mem_map_of_mem (List.mem_of_getElem? at_i))
      have later := ih distinct at_i
      simp only [slotsOf] at later
      simp [slotsOf, later, hold, ne]

theorem position?_cases (shape : RecordShape) (name : String) :
    (shape.position? name = none ∧ ∀ f ∈ shape.fields, f.name ≠ name) ∨
      ∃ i f, shape.position? name = some i ∧ shape.fields[i]? = some f ∧ f.name = name := by
  unfold position?
  cases found : shape.fields.findIdx? fun field => field.name == name with
  | none =>
    left
    refine ⟨rfl, fun f mem same => ?_⟩
    have no := List.findIdx?_eq_none_iff.mp found f mem
    simp [same] at no
  | some i =>
    right
    obtain ⟨less, same, -⟩ := List.findIdx?_eq_some_iff_getElem.mp found
    exact ⟨i, shape.fields[i], rfl, List.getElem?_eq_getElem less, by simpa using same⟩

theorem eq_of_name (distinct : (fields.map RecordField.name).Nodup) {f g : RecordField}
    (memF : f ∈ fields) (memG : g ∈ fields) (same : f.name = g.name) : f = g :=
  List.inj_on_of_nodup_map distinct memF memG same

/-- The fields of an object fill the slots if each one that has a slot passes its check; of several
fields with one name the last stays. -/
private theorem fill_ok_iff (distinct : (shape.fields.map RecordField.name).Nodup) {slots : Slots} :
    shape.fill (slotsOf shape.fields held) given = .ok slots ↔
      (∀ f ∈ shape.fields, ∀ x, (f.name, x) ∈ given → f.check x = .ok ()) ∧
        slots = slotsOf shape.fields (given.foldl hold held) := by
  induction given generalizing held with
  | nil => simp [fill, eq_comm]
  | cons field given ih =>
    obtain ⟨name, v⟩ := field
    rcases shape.position?_cases name with ⟨nowhere, other⟩ | ⟨i, f, found, at_i, rfl⟩
    · have kept : slotsOf shape.fields held = slotsOf shape.fields (hold held (name, v)) := by
        apply List.map_congr_left
        intro f mem
        simp [hold, other f mem]
      rw [fill, nowhere, kept]
      simp only [ih, List.foldl_cons, List.mem_cons, Prod.mk.injEq]
      apply and_congr_left'
      constructor
      · rintro passed f mem x (⟨same, -⟩ | more)
        · exact absurd same (other f mem)
        · exact passed f mem x more
      · intro passed f mem x more
        exact passed f mem x (Or.inr more)
    · have mem := List.mem_of_getElem? at_i
      simp only [fill, found, at_i]
      cases checked : f.check v with
      | error e =>
        constructor
        · intro done
          cases done
        · intro passed
          have accepted := passed.1 f mem v List.mem_cons_self
          rw [checked] at accepted
          cases accepted
      | ok u =>
        simp only [slotsOf_hold distinct at_i, ih, List.foldl_cons]
        apply and_congr_left'
        constructor
        · intro passed g memG x given
          rcases List.mem_cons.mp given with same | more
          · obtain ⟨sameName, rfl⟩ := Prod.mk.inj same
            obtain rfl := eq_of_name distinct memG mem sameName
            exact checked
          · exact passed g memG x more
        · intro passed g memG x more
          exact passed g memG x (List.mem_cons_of_mem _ more)

theorem foldl_hold_cases (given : List (String × Json)) (held : String → Option Json)
    (name : String) :
    (∃ x, (name, x) ∈ given ∧ given.foldl hold held name = some x) ∨
      (∀ x, (name, x) ∉ given) ∧ given.foldl hold held name = held name := by
  induction given generalizing held with
  | nil => exact Or.inr ⟨fun _ => List.not_mem_nil, rfl⟩
  | cons field given ih =>
    rw [List.foldl_cons]
    rcases ih (hold held field) with ⟨x, more, later⟩ | ⟨none, kept⟩
    · exact Or.inl ⟨x, List.mem_cons_of_mem _ more, later⟩
    · by_cases same : name = field.1
      · refine Or.inl ⟨field.2, by simp [same], ?_⟩
        rw [kept, hold, if_pos same]
      · refine Or.inr ⟨fun x mem => ?_, by simp [kept, hold, same]⟩
        rcases List.mem_cons.mp mem with first | more
        · exact same (congrArg Prod.fst first)
        · exact none x more

private theorem complete_ok (related : List.Forall₂ RecordField.Fills fields columns)
    (admitted : ∀ c ∈ columns, ∀ x, held c.name = some x → c.Admits x)
    (done : complete fields (slotsOf fields held) = .ok values) :
    List.Forall₂ Column.Admits columns values := by
  induction related generalizing values with
  | nil =>
    cases done
    exact .nil
  | @cons f c fields columns fills _ ih =>
    obtain ⟨first, others⟩ := List.forall_mem_cons.mp admitted
    simp only [complete, slotsOf, List.map_cons, List.headD_cons, List.tail_cons] at done
    split at done
    · cases done
    · rename_i x filled
      have taken : c.Admits x := by
        cases own : held f.name with
        | none => exact fills.default x (by simpa [own] using filled)
        | some y =>
          obtain rfl : y = x := by simpa [own] using filled
          exact first y (fills.name ▸ own)
      cases rest : complete fields (slotsOf fields held) with
      | error e =>
        simp only [slotsOf] at rest
        simp [rest, Except.map] at done
      | ok more =>
        have later := ih others rest
        simp only [slotsOf] at rest
        simp only [rest, Except.map, Except.ok.injEq] at done
        subst done
        exact .cons taken later

private theorem exists_complete_iff (related : List.Forall₂ RecordField.Fills fields columns) :
    (∃ values, complete fields (slotsOf fields held) = .ok values) ↔
      ∀ c ∈ columns, c.required = true → (held c.name).isSome = true := by
  induction related with
  | nil => simp [complete]
  | @cons f c fields columns fills _ ih =>
    rw [List.forall_mem_cons, ← ih]
    have own := fills.fallback
    rw [fills.name.symm]
    simp only [complete, slotsOf, List.map_cons, List.headD_cons, List.tail_cons]
    cases held f.name with
    | some x => cases complete fields (fields.map fun f => held f.name) <;> simp [Except.map]
    | none =>
      cases fallback : f.fallback with
      | none => simp [fallback] at own; simp [own]
      | some x =>
        simp [fallback] at own
        cases complete fields (fields.map fun f => held f.name) <;> simp [Except.map, own]

private theorem checkItems_ok_iff (related : List.Forall₂ RecordField.Fills fields columns) :
    (checkItems fields items = .ok () ∧ items.length ≤ fields.length) ↔
      List.Forall₂ Column.Admits (columns.take items.length) items := by
  induction related generalizing items with
  | nil => cases items <;> simp [checkItems]
  | @cons f c fields columns fills _ ih =>
    cases items with
    | nil => simp [checkItems]
    | cons x items =>
      simp only [checkItems, List.length_cons, List.take_succ_cons, List.forall₂_cons, ← ih,
        Nat.add_le_add_iff_right]
      cases checked : f.check x with
      | error e =>
        refine iff_of_false (fun both => nomatch both.1) fun both => ?_
        have := (fills.check x).mpr both.1
        rw [checked] at this
        cases this
      | ok u => simp [(fills.check x).mp checked]

private theorem fallbacks_cases (related : List.Forall₂ RecordField.Fills fields columns) :
    (∃ rest, fallbacks fields = some rest ∧ List.Forall₂ Column.Admits columns rest ∧
        ∀ c ∈ columns, c.required = false) ∨
      fallbacks fields = none ∧ ∃ c ∈ columns, c.required = true := by
  induction related with
  | nil => exact Or.inl ⟨[], rfl, .nil, nofun⟩
  | @cons f c fields columns fills _ ih =>
    have own := fills.fallback
    rw [fallbacks]
    cases fallback : f.fallback with
    | none =>
      have needed : c.required = true := by simpa [fallback] using own
      exact Or.inr ⟨by simp, c, List.mem_cons_self, needed⟩
    | some x =>
      have free : c.required = false := by simpa [fallback] using own
      rcases ih with ⟨rest, all, admitted, optional⟩ | ⟨none, c', mem, needed⟩
      · simp only [all]
        exact Or.inl ⟨x :: rest, rfl, .cons (fills.default x fallback) admitted,
          List.forall_mem_cons.mpr ⟨free, optional⟩⟩
      · exact Or.inr ⟨by simp [none], c', List.mem_cons_of_mem _ mem, needed⟩

private theorem ofJson_ok (distinct : (shape.fields.map RecordField.name).Nodup)
    (related : List.Forall₂ RecordField.Fills shape.fields columns) {v : Json}
    (done : shape.ofJson v = .ok values) :
    IsRecord columns v ∧ List.Forall₂ Column.Admits columns values := by
  cases v with
  | object given =>
    rw [ofJson] at done
    split at done
    · cases done
    · rename_i slots filled
      have start : shape.empty = slotsOf shape.fields fun _ => none := rfl
      rw [start, fill_ok_iff distinct] at filled
      obtain ⟨passed, rfl⟩ := filled
      have passed : ∀ c ∈ columns, ∀ x, (c.name, x) ∈ given → c.Admits x := by
        refine (forall_mem_iff_of_forall₂ related fun f c fills => ?_).mp passed
        simp only [fills.name, fills.check]
      have complete := (exists_complete_iff related).mp ⟨values, done⟩
      refine ⟨fun c mem => ⟨passed c mem, fun needed => ?_⟩, complete_ok related ?_ done⟩
      · rcases foldl_hold_cases given (fun _ => none) c.name with ⟨x, there, -⟩ | ⟨-, nothing⟩
        · exact ⟨x, there⟩
        · have held := complete c mem needed
          rw [nothing] at held
          cases held
      · intro c mem x held
        rcases foldl_hold_cases given (fun _ => none) c.name with ⟨y, there, last⟩ | ⟨-, nothing⟩
        · obtain rfl : y = x := by simpa [last] using held
          exact passed c mem y there
        · rw [nothing] at held
          cases held
  | array items =>
    rw [ofJson] at done
    split at done
    · cases done
    · rename_i checked
      split at done
      · cases done
      · rename_i few
        have front := (checkItems_ok_iff related).mp ⟨checked, Nat.le_of_not_lt few⟩
        have back := List.forall₂_drop items.length related
        rw [extend] at done
        rcases fallbacks_cases back with ⟨rest, all, admitted, optional⟩ | ⟨none, -⟩
        · simp only [all, Except.ok.injEq] at done
          subst done
          refine ⟨⟨front, optional⟩, ?_⟩
          rw [← List.take_append_drop items.length columns]
          exact List.rel_append front admitted
        · simp [none] at done
  | _ => cases done

private theorem exists_ofJson (distinct : (shape.fields.map RecordField.name).Nodup)
    (related : List.Forall₂ RecordField.Fills shape.fields columns) {v : Json}
    (isRecord : IsRecord columns v) : ∃ values, shape.ofJson v = .ok values := by
  cases v with
  | object given =>
    have passed : ∀ f ∈ shape.fields, ∀ x, (f.name, x) ∈ given → f.check x = .ok () := by
      refine (forall_mem_iff_of_forall₂ related fun f c fills => ?_).mpr fun c mem => (isRecord c mem).1
      simp only [fills.name, fills.check]
    have filled : shape.fill (slotsOf shape.fields fun _ => none) given = .ok _ :=
      (fill_ok_iff distinct).mpr ⟨passed, rfl⟩
    have start : shape.empty = slotsOf shape.fields fun _ => none := rfl
    simp only [ofJson, start, filled]
    refine (exists_complete_iff related).mpr fun c mem needed => ?_
    obtain ⟨x, there⟩ := (isRecord c mem).2 needed
    rcases foldl_hold_cases given (fun _ => none) c.name with ⟨y, -, last⟩ | ⟨nowhere, -⟩
    · rw [last]
      rfl
    · exact absurd there (nowhere x)
  | array items =>
    obtain ⟨front, optional⟩ := isRecord
    obtain ⟨checked, few⟩ := (checkItems_ok_iff related).mpr front
    have back := List.forall₂_drop items.length related
    simp only [ofJson, checked, Nat.not_lt.mpr few, if_false, extend]
    rcases fallbacks_cases back with ⟨rest, all, -, -⟩ | ⟨-, c, mem, needed⟩
    · exact ⟨items ++ rest, by rw [all]⟩
    · rw [optional c mem] at needed
      cases needed
  | _ => exact isRecord.elim

theorem takes_record {α : Type} {build : List Json → Except Mismatch α}
    (distinct : (shape.fields.map RecordField.name).Nodup)
    (related : List.Forall₂ RecordField.Fills shape.fields columns)
    (builds : ∀ values, List.Forall₂ Column.Admits columns values → ∃ a, build values = .ok a) :
    Json.Takes (fun v => shape.ofJson v >>= build) (IsRecord columns) := by
  intro v
  constructor
  · rintro ⟨a, done⟩
    cases read : shape.ofJson v with
    | error e => simp [read, bind, Except.bind] at done
    | ok values => exact (ofJson_ok distinct related read).1
  · intro isRecord
    obtain ⟨values, done⟩ := exists_ofJson distinct related isRecord
    obtain ⟨a, built⟩ := builds values (ofJson_ok distinct related done).2
    exact ⟨a, by simp [done, built]⟩

end RecordShape

end ProofHost
