import ProofHost.Json.Printer
import ProofHost.Text.Quoted

/-!
Taking values of a wanted type out of JSON values. A value of another shape is refused with the
cause of the mismatch, and every cause has one wording.
-/

set_option autoImplicit false

namespace ProofHost

inductive Mismatch where
  /-- The value is of another kind than wanted. -/
  | kind (got : Json) (want : String)
  /-- The value is an integer outside the wanted range. -/
  | range (got : Number) (want : String)
  | missing (field : String)
  | repeated (field : String)
  /-- An array of fields ends too early. -/
  | short (found : Nat) (want : String)
  /-- An array of fields goes on too long. -/
  | long (found : Nat)
  /-- A name outside a fixed list of names. -/
  | unknownName (found : String) (known : List String)
  /-- An object stands for a name but has not exactly one field. -/
  | notOneField
  /-- A value fits none of the forms that the named type has. -/
  | noForm (type : String)
  deriving DecidableEq, Repr

namespace Mismatch

/-- How a message names the kind of a value that it did not want. -/
def kindText : Json → String
  | .null => "null"
  | .bool true => "boolean `true`"
  | .bool false => "boolean `false`"
  | .number (.real bits) =>
    "floating point `" ++ String.ofList (Number.render (.real bits)) ++ "`"
  | .number n => "integer `" ++ String.ofList n.render ++ "`"
  | .string s => "string " ++ Text.Quoted.quote s
  | .array _ => "sequence"
  | .object _ => "map"

def message : Mismatch → String
  | kind got want => "invalid type: " ++ kindText got ++ ", expected " ++ want
  | range got want => "invalid value: " ++ kindText (.number got) ++ ", expected " ++ want
  | missing field => "missing field `" ++ field ++ "`"
  | repeated field => "duplicate field `" ++ field ++ "`"
  | short found want => "invalid length " ++ toString found ++ ", expected " ++ want
  | long found => "invalid length " ++ toString found ++ ", expected fewer elements in array"
  | unknownName found known =>
    "unknown variant `" ++ found ++ "`, expected one of " ++
      ", ".intercalate (known.map fun name => "`" ++ name ++ "`")
  | notOneField => "invalid value: map, expected map with a single key"
  | noForm type => "data did not match any variant of untagged enum " ++ type

end Mismatch

namespace Json

/-- A decoder takes a value of a wanted type out of a JSON value. -/
abbrev Decoder (α : Type) := Json → Except Mismatch α

/-- A natural number below a limit, which messages call by the given name. -/
def natBelow (limit : Nat) (want : String) : Decoder { n : Nat // n < limit }
  | .number (.natural n) =>
    if h : n.toNat < limit then .ok ⟨n.toNat, h⟩ else .error (.range (.natural n) want)
  | .number (.negative below) => .error (.range (.negative below) want)
  | other => .error (.kind other want)

def wordCalled (want : String) : Decoder UInt64 := fun v =>
  (natBelow UInt64.size want v).map fun n => UInt64.ofNatLT n.val n.property

def asWord : Decoder UInt64 := wordCalled "u64"

def asSize : Decoder UInt64 := wordCalled "usize"

def asHalf : Decoder UInt32 := fun v =>
  (natBelow UInt32.size "u32" v).map fun n => UInt32.ofNatLT n.val n.property

def asByte : Decoder UInt8 := fun v =>
  (natBelow UInt8.size "u8" v).map fun n => UInt8.ofNatLT n.val n.property

def textCalled (want : String) : Decoder String
  | .string s => .ok s
  | other => .error (.kind other want)

def asText : Decoder String := textCalled "a string"

def asBool : Decoder Bool
  | .bool b => .ok b
  | other => .error (.kind other "a boolean")

def asUnit : Decoder Unit
  | .null => .ok ()
  | other => .error (.kind other "unit")

def asAny : Decoder Json := .ok

def asOption {α : Type} (item : Decoder α) : Decoder (Option α)
  | .null => .ok none
  | other => (item other).map some

/-- Decode the items of a list in order; the first that is refused counts. -/
def decodeItems {α : Type} (item : Decoder α) : List Json → Except Mismatch (List α)
  | [] => .ok []
  | v :: vs =>
    match item v with
    | .error e => .error e
    | .ok a =>
      match decodeItems item vs with
      | .error e => .error e
      | .ok as => .ok (a :: as)

def asList {α : Type} (item : Decoder α) : Decoder (List α)
  | .array items => decodeItems item items
  | other => .error (.kind other "a sequence")

def asPair {α : Type} (item : Decoder α) : Decoder (α × α)
  | .array items =>
    match items with
    | [] => .error (.short 0 "a tuple of size 2")
    | [a] =>
      match item a with
      | .error e => .error e
      | .ok _ => .error (.short 1 "a tuple of size 2")
    | a :: b :: rest =>
      match item a with
      | .error e => .error e
      | .ok x =>
        match item b with
        | .error e => .error e
        | .ok y => if rest.isEmpty then .ok (x, y) else .error (.long items.length)
  | other => .error (.kind other "a tuple of size 2")

end Json

end ProofHost
