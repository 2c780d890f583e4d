import ProofHost.Json.Shape

/-!
Tagged arrays: an array whose head is a string, the tag, and whose further items are the fields of
that tag. A value is checked in a fixed order: array, tag, number of fields, then field by field.
-/

set_option autoImplicit false

namespace ProofHost

/-- Why a value is no acceptable tagged array; fields have causes of their own. -/
inductive TagError (ε : Type) where
  | notArray
  | missingTag
  | unknownTag (tag : String)
  | arity (tag : String) (expected found : Nat)
  | field (tag : String) (index : Nat) (cause : ε)
  deriving DecidableEq, Repr

/-- The wording of an error, given the wording of a field's cause. -/
def TagError.message {ε : Type} (cause : ε → String) : TagError ε → String
  | notArray => "expected a tagged array"
  | missingTag => "missing string tag"
  | unknownTag tag => "unknown tag '" ++ tag ++ "'"
  | arity tag expected found =>
    "'" ++ tag ++ "' expects " ++ toString expected ++ " field(s), found " ++ toString found
  | field tag index e => "'" ++ tag ++ "' field " ++ toString index ++ ": " ++ cause e

structure Tagged where
  tag : String
  fields : List Json
  deriving DecidableEq, Repr

namespace Tagged

variable {ε α : Type}

def ofJson : Json → Except (TagError ε) Tagged
  | .array (.string tag :: fields) => .ok ⟨tag, fields⟩
  | .array _ => .error .missingTag
  | _ => .error .notArray

def toJson (t : Tagged) : Json := .array (.string t.tag :: t.fields)

def arity (t : Tagged) (expected : Nat) : Except (TagError ε) Unit :=
  if t.fields.length = expected then .ok ()
  else .error (.arity t.tag expected t.fields.length)

def field (t : Tagged) (index : Nat) (decode : Json → Except ε α) : Except (TagError ε) α :=
  match t.fields[index]? with
  | none => .error (.arity t.tag (index + 1) t.fields.length)
  | some v =>
    match decode v with
    | .ok a => .ok a
    | .error e => .error (.field t.tag index e)

def unknown (t : Tagged) : Except (TagError ε) α := .error (.unknownTag t.tag)

end Tagged

end ProofHost
