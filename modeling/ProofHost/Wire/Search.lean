import ProofHost.Wire.Tagged

/-!
Searches for names that are in scope at a document state.
-/

set_option autoImplicit false

namespace ProofHost

inductive Search where
  /-- All modules of the load path and all names declared in the document. -/
  | all
  /-- The names declared in the document. -/
  | currentFile
  /-- The modules below a dotted path. -/
  | modulesUnder (path : List String)
  /-- The modules and names that contain a text. -/
  | keyword (text : String)
  /-- The names declared in the document. -/
  | locals
  deriving DecidableEq, Repr

namespace Search

def ofJson (v : Json) : Except (TagError Mismatch) Search := do
  let t ← Tagged.ofJson v
  match t.tag with
  | "All" => do
    t.arity 0
    return .all
  | "CurrentFile" => do
    t.arity 0
    return .currentFile
  | "ModulePrefix" => do
    t.arity 1
    return .modulesUnder (← t.field 0 (Json.asList Json.asText))
  | "Keyword" => do
    t.arity 1
    return .keyword (← t.field 0 Json.asText)
  | "Locals" => do
    t.arity 0
    return .locals
  | _ => t.unknown

def toJson : Search → Json
  | all => Tagged.toJson ⟨"All", []⟩
  | currentFile => Tagged.toJson ⟨"CurrentFile", []⟩
  | modulesUnder path => Tagged.toJson ⟨"ModulePrefix", [Json.ofTexts path]⟩
  | keyword text => Tagged.toJson ⟨"Keyword", [.string text]⟩
  | locals => Tagged.toJson ⟨"Locals", []⟩

end Search

end ProofHost
