import ProofHost.Wire.Tagged

/-!
The errors of decoding messages.
-/

set_option autoImplicit false

namespace ProofHost

inductive FieldError where
  /-- The field has the wrong shape. -/
  | shape (cause : Mismatch)
  /-- The field is a search, and that is refused. -/
  | search (cause : TagError Mismatch)
  deriving DecidableEq, Repr

def FieldError.message : FieldError → String
  | shape cause => cause.message
  | search cause => cause.message Mismatch.message

inductive DecodeError where
  /-- The text is no JSON. -/
  | malformed
  /-- The value is no tagged array of the vocabulary. -/
  | tagged (cause : TagError FieldError)
  /-- A sentence names both an edit point and a parent. -/
  | ambiguous
  deriving DecidableEq, Repr

def DecodeError.message : DecodeError → String
  | malformed => "invalid JSON"
  | tagged cause => cause.message FieldError.message
  | ambiguous => "Add cannot carry both an edit point and an explicit parent"

def Json.inField {α : Type} (decode : Json.Decoder α) (v : Json) : Except FieldError α :=
  match decode v with
  | .ok a => .ok a
  | .error e => .error (.shape e)

end ProofHost
