import ProofHost.Proofs.Json.Acceptance
import ProofHost.Proofs.Json.RoundTrip

/-!
Records read back from the indented text of an object. A field's reader skips the blanks before its
value, so the lines and the indentation make no difference; the fields are taken up one after
another, and each fills its own slot.
-/

set_option autoImplicit false

namespace ProofHost

namespace Json

variable {ε : Type}

private theorem blank_newline (level : Nat) : Blank (newline level) := by
  intro c mem
  rcases List.mem_cons.mp mem with rfl | more
  · rfl
  · rw [List.eq_of_mem_replicate more]
    rfl

private theorem blank_space : Blank [' '] := List.forall_mem_singleton.mpr rfl

private theorem indentItems_eq (level : Nat) (vs : List Json) :
    indentItems level vs =
      furtherText (newline (level + 1)) (newline level ++ [']'])
        (vs.map (indentChars (level + 1))) := by
  induction vs with
  | nil => rw [indentItems]; rfl
  | cons v vs ih => rw [indentItems, ih]; rfl

private theorem indentChars_array (level : Nat) (vs : List Json) :
    indentChars level (.array vs) =
      '[' :: insideText ']' (newline (level + 1)) (newline level)
        (vs.map (indentChars (level + 1))) := by
  cases vs with
  | nil => rw [indentChars]; rfl
  | cons v vs => rw [indentChars, indentItems_eq]; rfl

def indentedField (level : Nat) (field : String × Json) : List Char :=
  fieldText [' '] field.1 (indentChars level field.2)

private theorem indentFields_eq (level : Nat) (fs : List (String × Json)) :
    indentFields level fs =
      furtherText (newline (level + 1)) (newline level ++ ['\x7d'])
        (fs.map (indentedField (level + 1))) := by
  induction fs with
  | nil => rw [indentFields]; rfl
  | cons f fs ih =>
    rw [indentFields, ih]
    simp [furtherText, indentedField, fieldText]

private theorem indentChars_object (level : Nat) (fs : List (String × Json)) :
    indentChars level (.object fs) =
      '\x7b' :: insideText '\x7d' (newline (level + 1)) (newline level)
        (fs.map (indentedField (level + 1))) := by
  cases fs with
  | nil => rw [indentChars]; rfl
  | cons f fs =>
    rw [indentChars, indentFields_eq]
    simp [insideText, indentedField, fieldText]

variable (check : Json → Except Mismatch Unit)

theorem readBack_checked_string {s : String} (passes : check (.string s) = .ok ()) (level : Nat) :
    ReadBack (Reader.checked check) (indentChars level (.string s)) (.string s) := by
  have text : indentChars level (.string s) = '"' :: (s.toList.flatMap escape ++ ['"']) := by
    rw [indentChars, renderString]
  rw [text]
  refine ⟨⟨'"', _, rfl, by decide, by decide⟩, fun rest _ => ?_⟩
  rw [List.cons_append, List.append_assoc, List.singleton_append, Reader.checked,
    skipSpace_cons (by decide)]
  simp [readScalar, readString_body, Except.map, passes]

theorem readBack_checked_null (passes : check .null = .ok ()) (level : Nat) :
    ReadBack (Reader.checked check) (indentChars level .null) .null := by
  have text : indentChars level .null = ['n', 'u', 'l', 'l'] := by rw [indentChars]
  rw [text]
  refine ⟨⟨'n', _, rfl, by decide, by decide⟩, fun rest _ => ?_⟩
  rw [List.cons_append, Reader.checked, skipSpace_cons (by decide)]
  simp [readScalar, readKeyword, Text.dropLeading?, Except.map, passes]

theorem readBack_list {item : Reader Mismatch Json} {vs : List Json} {level : Nat}
    (back : ∀ v ∈ vs, ReadBack item (indentChars (level + 1) v) v) :
    ReadBack (Reader.list item) (indentChars level (.array vs)) (.array vs) := by
  rw [indentChars_array]
  refine ⟨⟨'[', _, rfl, by decide, by decide⟩, fun rest _ => ?_⟩
  have all := readItems_of_takesUp (takesUp_items back []) (blank_newline (level + 1))
    (blank_newline level) rest
  rw [List.cons_append, Reader.list, skipSpace_cons (by decide)]
  simp only [all]
  simp [Except.map]

end Json

namespace RecordShape

open Json (ReadBack TakesUp indentedField)

variable {shape : RecordShape} {fields : List RecordField} {given : List (String × Json)}
  {held : String → Option Json} {depth : Nat}

private theorem readSlot_eq (distinct : (shape.fields.map RecordField.name).Nodup)
    {field : RecordField}
    (mem : field ∈ shape.fields) (new : held field.name = none) (depth : Nat) :
    shape.readSlot depth (slotsOf shape.fields held) field.name =
      Json.afterColon (field.read depth) fun v =>
        slotsOf shape.fields (hold held (field.name, v)) := by
  rcases shape.position?_cases field.name with ⟨-, nowhere⟩ | ⟨i, other, found, at_i, same⟩
  · exact absurd rfl (nowhere field mem)
  · obtain rfl := eq_of_name distinct (List.mem_of_getElem? at_i) mem same
    have slot : (slotsOf shape.fields held)[i]? = some none := by
      rw [slotsOf, List.getElem?_map, at_i, Option.map_some, new]
    rw [readSlot, found]
    simp only [at_i, slot, slotsOf_hold distinct at_i]

private theorem takesUp_slots (distinct : (shape.fields.map RecordField.name).Nodup)
    (held : String → Option Json) {level : Nat}
    (own : ∀ entry ∈ given, ∃ field ∈ shape.fields, field.name = entry.1 ∧
      ReadBack (field.read depth) (Json.indentChars level entry.2) entry.2)
    (once : (given.map Prod.fst).Nodup) (new : ∀ entry ∈ given, held entry.1 = none) :
    TakesUp (Json.readField Json.readString (shape.readSlot depth)) (slotsOf shape.fields held)
      (given.map (indentedField level)) (slotsOf shape.fields (given.foldl hold held)) := by
  induction given generalizing held with
  | nil => exact .nil _
  | cons entry given ih =>
    obtain ⟨⟨field, mem, named, back⟩, others⟩ := List.forall_mem_cons.mp own
    obtain ⟨free, free'⟩ := List.forall_mem_cons.mp new
    obtain ⟨first, once⟩ := List.nodup_cons.mp once
    have slot := readSlot_eq distinct mem (named ▸ free) depth
    rw [named] at slot
    refine .cons (Json.opens_fieldText _ _ _)
      (fun rest stops => Json.readField_fieldText slot back Json.blank_space stops)
      (ih _ others once fun other there => ?_)
    have ne : other.1 ≠ entry.1 := fun same => first (same ▸ List.mem_map_of_mem there)
    rw [hold, if_neg ne]
    exact free' other there

private theorem slotsOf_foldl_hold (named : fields.map RecordField.name = given.map Prod.fst)
    (once : (given.map Prod.fst).Nodup) (held : String → Option Json) :
    slotsOf fields (given.foldl hold held) = (given.map Prod.snd).map some := by
  have all : slotsOf fields (given.foldl hold held) =
      (given.map Prod.fst).map (given.foldl hold held) := by
    rw [slotsOf, ← named, List.map_map]
    rfl
  rw [all, List.map_map, List.map_map]
  refine List.map_congr_left fun entry mem => ?_
  rcases foldl_hold_cases given held entry.1 with ⟨x, there, last⟩ | ⟨nowhere, -⟩
  · obtain rfl := congrArg Prod.snd (List.inj_on_of_nodup_map once there mem rfl)
    exact last
  · exact absurd mem (nowhere entry.2)

private theorem complete_map_some (values : List Json) (same : fields.length = values.length) :
    complete fields (values.map some) = .ok values := by
  induction fields generalizing values with
  | nil =>
    obtain rfl := List.length_eq_zero_iff.mp same.symm
    rfl
  | cons field fields ih =>
    cases values with
    | nil => cases same
    | cons v values => simp [complete, ih values (Nat.succ.inj same), Except.map]

/-- A record whose fields all stand in an object is read back from the object's indented text. -/
theorem read_indented (distinct : (shape.fields.map RecordField.name).Nodup)
    (own : List.Forall₂ (fun field entry => field.name = entry.1 ∧
      ReadBack (field.read (depth - 1)) (Json.indentChars 1 entry.2) entry.2) shape.fields given)
    (rest : List Char) :
    shape.read depth (Json.indentChars 0 (.object given) ++ rest) =
      .ok (given.map Prod.snd, rest) := by
  have named : shape.fields.map RecordField.name = given.map Prod.fst := by
    rw [← List.forall₂_eq_eq_eq, List.forall₂_map_left_iff, List.forall₂_map_right_iff]
    exact own.imp fun _ _ both => both.1
  have found : ∀ entry ∈ given, ∃ field ∈ shape.fields, field.name = entry.1 ∧
      ReadBack (field.read (depth - 1)) (Json.indentChars 1 entry.2) entry.2 := by
    intro entry mem
    obtain ⟨i, less, rfl⟩ := List.getElem_of_mem mem
    have related := own.get (by rw [own.length_eq]; exact less) less
    exact ⟨_, List.get_mem _ _, related⟩
  have once := distinct
  rw [named] at once
  have slots := takesUp_slots distinct (fun _ => none) found once fun _ _ => rfl
  have all := Json.readFields_of_takesUp slots (Json.blank_newline 1) (Json.blank_newline 0) rest
  rw [slotsOf_foldl_hold named once] at all
  have start : shape.empty = slotsOf shape.fields fun _ => none := rfl
  have whole := complete_map_some (given.map Prod.snd) (by simpa using own.length_eq)
  rw [Json.indentChars_object, List.cons_append, read, Json.skipSpace_cons (by decide)]
  simp only [start, all, whole]

end RecordShape

end ProofHost
