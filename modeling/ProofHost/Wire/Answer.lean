import ProofHost.Wire.Basic
import ProofHost.Wire.Error

/-!
The answers of a kernel.
-/

set_option autoImplicit false

namespace ProofHost

inductive Answer where
  /-- A new document has this root. -/
  | ready (root : StateId)
  /-- A sentence was added. -/
  | added (state : StateId) (span : Option Span)
  /-- After a removal the document ends at this state. -/
  | backTo (state : StateId)
  /-- The goals at a state, if a proof is open there. -/
  | goalInfo (state : StateId) (goals : Option Json)
  | feedback (f : Feedback)
  /--
  A command failed. The rollback names the last good state and the failing one; the document has
  gone back to the good one.
  -/
  | failed (location : Option Span) (rollback : Option (StateId × StateId)) (reason : String)
  /-- Output that is no answer, as it came. -/
  | garbled (line : String)
  deriving DecidableEq, Repr

namespace Answer

def tag : Answer → String
  | ready .. => "Ready"
  | added .. => "Added"
  | backTo .. => "BackTo"
  | goalInfo .. => "GoalInfo"
  | feedback .. => "Feedback"
  | failed .. => "CoqExn"
  | garbled .. => "JsonExn"

def pairToJson (p : StateId × StateId) : Json := .array [Json.ofWord p.1, Json.ofWord p.2]

def fields : Answer → List Json
  | ready root => [Json.ofWord root]
  | added state span => [Json.ofWord state, Json.ofOption Span.toJson span]
  | backTo state => [Json.ofWord state]
  | goalInfo state goals => [Json.ofWord state, Json.ofOption id goals]
  | feedback f => [f.toJson]
  | failed location rollback reason =>
    [Json.ofOption Span.toJson location, Json.ofOption pairToJson rollback, .string reason]
  | garbled line => [.string line]

def toJson (a : Answer) : Json := Tagged.toJson ⟨a.tag, a.fields⟩

def ofGoals (state : StateId) (goals : Option Json) : Answer :=
  .goalInfo state (goals.filter fun g => g != .null)

def ofTagged (t : Tagged) : Except (TagError FieldError) Answer :=
  match t.tag with
  | "Ready" => do
    t.arity 1
    return .ready (← t.field 0 (Json.inField Json.asWord))
  | "Added" => do
    t.arity 2
    return .added (← t.field 0 (Json.inField Json.asWord))
      (← t.field 1 (Json.inField (Json.asOption Span.ofJson)))
  | "BackTo" => do
    t.arity 1
    return .backTo (← t.field 0 (Json.inField Json.asWord))
  | "GoalInfo" => do
    t.arity 2
    return .goalInfo (← t.field 0 (Json.inField Json.asWord))
      (← t.field 1 (Json.inField (Json.asOption Json.asAny)))
  | "Feedback" => do
    t.arity 1
    return .feedback (← t.field 0 (Json.inField Feedback.ofJson))
  | "CoqExn" => do
    t.arity 3
    return .failed (← t.field 0 (Json.inField (Json.asOption Span.ofJson)))
      (← t.field 1 (Json.inField (Json.asOption (Json.asPair Json.asWord))))
      (← t.field 2 (Json.inField Json.asText))
  | "JsonExn" => do
    t.arity 1
    return .garbled (← t.field 0 (Json.inField Json.asText))
  | _ => t.unknown

def ofJson (v : Json) : Except (TagError FieldError) Answer := Tagged.ofJson v >>= ofTagged

end Answer

end ProofHost
