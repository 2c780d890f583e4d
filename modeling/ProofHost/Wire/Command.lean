import ProofHost.Wire.Basic
import ProofHost.Wire.Error
import ProofHost.Wire.Search

/-!
The commands that a kernel serves.
-/

set_option autoImplicit false

namespace ProofHost

inductive Command where
  /-- Start a new document. -/
  | init
  /-- Add a sentence: at an edit point, under a parent, or under the tip. -/
  | add (editAt parent : Option StateId) (text : String) (verbose : Bool)
  /-- Execute all sentences up to a state. -/
  | exec (state : StateId)
  /-- Remove a state and everything built on it. -/
  | cancel (state : StateId)
  /-- Ask for the goals at a state. -/
  | goals (state : StateId)
  /-- Ask a question at a state; the answer carries the route. -/
  | query (state : StateId) (route : UInt32) (text : String)
  /-- Search for names at a state; the answers carry the route. -/
  | inspect (state : StateId) (route : UInt32) (search : Search)
  /-- Look again for compiled modules. -/
  | refreshLoadPath
  deriving DecidableEq, Repr

namespace Command

def tag : Command → String
  | init => "Init"
  | add .. => "Add"
  | exec .. => "Exec"
  | cancel .. => "Cancel"
  | goals .. => "Goals"
  | query .. => "Query"
  | inspect .. => "Inspect"
  | refreshLoadPath => "RefreshLoadPath"

def fields : Command → List Json
  | init => []
  | add editAt parent text verbose =>
    [Json.ofOption Json.ofWord editAt, Json.ofOption Json.ofWord parent, .string text,
      .bool verbose]
  | exec state => [Json.ofWord state]
  | cancel state => [Json.ofWord state]
  | goals state => [Json.ofWord state]
  | query state route text => [Json.ofWord state, Json.ofWord route.toUInt64, .string text]
  | inspect state route search =>
    [Json.ofWord state, Json.ofWord route.toUInt64, search.toJson]
  | refreshLoadPath => []

def toJson (c : Command) : Json := Tagged.toJson ⟨c.tag, c.fields⟩

def searchField (v : Json) : Except FieldError Search :=
  match Search.ofJson v with
  | .ok s => .ok s
  | .error e => .error (.search e)

def ofTagged (t : Tagged) : Except (TagError FieldError) Command :=
  match t.tag with
  | "Init" => do
    t.arity 0
    return .init
  | "Add" => do
    t.arity 4
    return .add (← t.field 0 (Json.inField (Json.asOption Json.asWord)))
      (← t.field 1 (Json.inField (Json.asOption Json.asWord)))
      (← t.field 2 (Json.inField Json.asText)) (← t.field 3 (Json.inField Json.asBool))
  | "Exec" => do
    t.arity 1
    return .exec (← t.field 0 (Json.inField Json.asWord))
  | "Cancel" => do
    t.arity 1
    return .cancel (← t.field 0 (Json.inField Json.asWord))
  | "Goals" => do
    t.arity 1
    return .goals (← t.field 0 (Json.inField Json.asWord))
  | "Query" => do
    t.arity 3
    return .query (← t.field 0 (Json.inField Json.asWord))
      (← t.field 1 (Json.inField Json.asHalf)) (← t.field 2 (Json.inField Json.asText))
  | "Inspect" => do
    t.arity 3
    return .inspect (← t.field 0 (Json.inField Json.asWord))
      (← t.field 1 (Json.inField Json.asHalf)) (← t.field 2 searchField)
  | "RefreshLoadPath" => do
    t.arity 0
    return .refreshLoadPath
  | _ => t.unknown

def ofJson (v : Json) : Except (TagError FieldError) Command := Tagged.ofJson v >>= ofTagged

/-- A sentence may name an edit point or a parent, but not both. -/
def validate : Command → Except DecodeError Unit
  | add (some _) (some _) _ _ => .error .ambiguous
  | _ => .ok ()

end Command

end ProofHost
