import ProofHost.Json.Shape
import ProofHost.Json.Skip

/-!
Records: a fixed list of named fields, written as an object or as an array of the fields in their
declared order. A record is taken from a JSON value or straight from a text; from a text, a field
that stands twice is refused, and the first failure from the left counts.
-/

set_option autoImplicit false

namespace ProofHost

structure RecordField where
  name : String
  /-- The check that a value passes to fill the field. -/
  check : Json → Except Mismatch Unit
  /-- The reading of such a value from a text, within the given depth. -/
  read : Nat → Reader Mismatch Json
  /-- The value of the field when it is left out, if it may be. -/
  fallback : Option Json

/-- The shape of a record: its name in messages and its fields in declared order. -/
structure RecordShape where
  name : String
  fields : List RecordField

namespace Reader

/-- A keyword, number or string that passes a check; a container is refused at its bracket. -/
def checked (check : Json → Except Mismatch Unit) : Reader Mismatch Json := fun cs =>
  let take (v : Json) (rest : List Char) : Except (Fault Mismatch) (Json × List Char) :=
    match check v with
    | .ok _ => .ok (v, rest)
    | .error e => .error (.rejected e)
  match Json.skipSpace cs with
  | '[' :: rest => take (.array []) rest
  | '\x7b' :: rest => take (.object []) rest
  | rest =>
    match Json.readScalar rest with
    | .ok (v, rest') => take v rest'
    | .error e => .error e

def list (item : Reader Mismatch Json) : Reader Mismatch Json := fun cs =>
  match Json.skipSpace cs with
  | '[' :: rest =>
    (Json.readItems (fun items cs => (item cs).map fun (v, r) => (v :: items, r)) [] rest).map
      fun (items, r) => (.array items.reverse, r)
  | rest => checked (fun v => .error (.kind v "a sequence")) rest

end Reader

namespace RecordField

/-- A field for which a decoder of keywords, numbers and strings is the check. -/
def scalar {α : Type} (name : String) (decode : Json.Decoder α) (fallback : Option Json) :
    RecordField :=
  let check := fun v => (decode v).map fun _ => ()
  ⟨name, check, fun _ => Reader.checked check, fallback⟩

def texts (name : String) (fallback : Option Json) : RecordField :=
  ⟨name, fun v => (Json.asList Json.asText v).map fun _ => (),
    fun _ => Reader.list (Reader.checked fun v => (Json.asText v).map fun _ => ()), fallback⟩

def any (name : String) (fallback : Option Json) : RecordField :=
  ⟨name, fun _ => .ok (), fun depth => Json.readValue depth, fallback⟩

end RecordField

namespace RecordShape

def want (shape : RecordShape) : String := "struct " ++ shape.name

/-- What messages call the record when its array form is too short. -/
def wantCount (shape : RecordShape) : String :=
  shape.want ++ " with " ++ toString shape.fields.length ++
    (if shape.fields.length = 1 then " element" else " elements")

/-- The values found so far, in declared order. -/
abbrev Slots := List (Option Json)

def position? (shape : RecordShape) (name : String) : Option Nat :=
  shape.fields.findIdx? fun field => field.name == name

/-- The values of all fields of an object; the first one missing without fallback is refused. -/
def complete : List RecordField → Slots → Except Mismatch (List Json)
  | [], _ => .ok []
  | field :: fields, slots =>
    match (slots.headD none).or field.fallback with
    | none => .error (.missing field.name)
    | some v => (complete fields slots.tail).map (v :: ·)

def fallbacks : List RecordField → Option (List Json)
  | [] => some []
  | field :: fields =>
    match field.fallback, fallbacks fields with
    | some v, some vs => some (v :: vs)
    | _, _ => none

def extend (shape : RecordShape) (values : List Json) : Except Mismatch (List Json) :=
  match fallbacks (shape.fields.drop values.length) with
  | some rest => .ok (values ++ rest)
  | none =>
    let missing := (shape.fields.drop values.length).takeWhile fun field => field.fallback.isSome
    .error (.short (values.length + missing.length) shape.wantCount)

/-- Fill slots from the fields of an object, in the order in which they stand. -/
def fill (shape : RecordShape) : Slots → List (String × Json) → Except Mismatch Slots
  | slots, [] => .ok slots
  | slots, (name, v) :: rest =>
    match shape.position? name with
    | none => fill shape slots rest
    | some i =>
      match shape.fields[i]? with
      | none => fill shape slots rest
      | some field =>
        match field.check v with
        | .error e => .error e
        | .ok _ => fill shape (slots.set i (some v)) rest

/-- Check items against fields in order, as far as both go. -/
def checkItems : List RecordField → List Json → Except Mismatch Unit
  | field :: fields, v :: vs =>
    match field.check v with
    | .error e => .error e
    | .ok _ => checkItems fields vs
  | _, _ => .ok ()

def empty (shape : RecordShape) : Slots := shape.fields.map fun _ => none

def ofJson (shape : RecordShape) : Json → Except Mismatch (List Json)
  | .object fields =>
    match shape.fill shape.empty fields with
    | .error e => .error e
    | .ok slots => complete shape.fields slots
  | .array items =>
    match checkItems shape.fields items with
    | .error e => .error e
    | .ok _ =>
      if shape.fields.length < items.length then .error (.long items.length)
      else shape.extend items
  | other => .error (.kind other shape.want)

def readSlot (shape : RecordShape) (depth : Nat) (slots : Slots) (name : String) :
    Reader Mismatch Slots :=
  match shape.position? name with
  | none => Json.afterColon Json.skipValue fun _ => slots
  | some i =>
    match shape.fields[i]?, slots[i]? with
    | some field, some none => Json.afterColon (field.read depth) fun v => slots.set i (some v)
    | _, _ => fun _ => .error (.rejected (.repeated name))

/-- Read the next item of an array; items beyond the last field are malformed. -/
def readNext (shape : RecordShape) (depth : Nat) (values : List Json) :
    Reader Mismatch (List Json) := fun cs =>
  match shape.fields[values.length]? with
  | none => .error .malformed
  | some field =>
    match field.read depth cs with
    | .ok (v, rest) => .ok (values ++ [v], rest)
    | .error e => .error e

/-- The values of the fields of a record at the front of a text. -/
def read (shape : RecordShape) (depth : Nat) : Reader Mismatch (List Json) := fun cs =>
  let finish (values : Except Mismatch (List Json)) (rest : List Char) :
      Except (Fault Mismatch) (List Json × List Char) :=
    match values with
    | .ok vs => .ok (vs, rest)
    | .error e => .error (.rejected e)
  match Json.skipSpace cs with
  | '\x7b' :: rest =>
    match Json.readFields Json.readString (shape.readSlot (depth - 1)) shape.empty rest with
    | .ok (slots, rest') => finish (complete shape.fields slots) rest'
    | .error e => .error e
  | '[' :: rest =>
    match Json.readItems (shape.readNext (depth - 1)) [] rest with
    | .ok (values, rest') => finish (shape.extend values) rest'
    | .error e => .error e
  | rest =>
    match Reader.checked (fun v => .error (.kind v shape.want)) rest with
    | .ok (_, rest') => .ok ([], rest')
    | .error e => .error e

end RecordShape

end ProofHost
