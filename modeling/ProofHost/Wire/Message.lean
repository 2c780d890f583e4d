import ProofHost.Wire.Answer
import ProofHost.Wire.Command

/-!
The messages at the host's side: requests of a client, which are commands to the kernel or
administrative, and what clients are told, which is answers of the kernel or notices of the host.
-/

set_option autoImplicit false

namespace ProofHost

inductive Request where
  /-- Install packages. -/
  | loadPackages (uris : List String)
  /-- Write a file of the sandbox. -/
  | put (path : String) (content : Content)
  /-- Read a file of the sandbox. -/
  | get (path : String)
  | setupInterrupt (setup : InterruptSetup)
  | kernel (command : Command)
  deriving DecidableEq, Repr

namespace Request

def isAdministrative : Request → Bool
  | kernel _ => false
  | _ => true

def toJson : Request → Json
  | loadPackages uris => Tagged.toJson ⟨"LoadPkg", [Json.ofTexts uris]⟩
  | put path content => Tagged.toJson ⟨"Put", [.string path, content.toJson]⟩
  | get path => Tagged.toJson ⟨"Get", [.string path]⟩
  | setupInterrupt setup => Tagged.toJson ⟨"InterruptSetup", [setup.toJson]⟩
  | kernel command => command.toJson

def ofTagged (t : Tagged) : Except (TagError FieldError) Request :=
  match t.tag with
  | "LoadPkg" => do
    t.arity 1
    return .loadPackages (← t.field 0 (Json.inField (Json.asList Json.asText)))
  | "Put" => do
    t.arity 2
    return .put (← t.field 0 (Json.inField Json.asText)) (← t.field 1 (Json.inField Content.ofJson))
  | "Get" => do
    t.arity 1
    return .get (← t.field 0 (Json.inField Json.asText))
  | "InterruptSetup" => do
    t.arity 1
    return .setupInterrupt (← t.field 0 (Json.inField InterruptSetup.ofJson))
  | _ => (Command.ofTagged t).map .kernel

def ofJson (v : Json) : Except (TagError FieldError) Request := Tagged.ofJson v >>= ofTagged

end Request

inductive Notice where
  /-- A package was installed. -/
  | packageLoaded (uri : String)
  /-- A package was not installed. -/
  | packageFailed (uri : String) (reason : String)
  /-- A batch of packages is done; these of it were installed. -/
  | batchLoaded (uris : List String)
  /-- The contents of a file, if there is one. -/
  | got (path : String) (content : Option Bytes)
  deriving DecidableEq, Repr

namespace Notice

def toJson : Notice → Json
  | packageLoaded uri => Tagged.toJson ⟨"LibLoaded", [.string uri]⟩
  | packageFailed uri reason => Tagged.toJson ⟨"LibError", [.string uri, .string reason]⟩
  | batchLoaded uris => Tagged.toJson ⟨"LoadedPkg", [Json.ofTexts uris]⟩
  | got path content =>
    Tagged.toJson ⟨"Got", [.string path, Json.ofOption Content.ofBytes content]⟩

def ofTagged (t : Tagged) : Except (TagError FieldError) Notice :=
  match t.tag with
  | "LibLoaded" => do
    t.arity 1
    return .packageLoaded (← t.field 0 (Json.inField Json.asText))
  | "LibError" => do
    t.arity 2
    return .packageFailed (← t.field 0 (Json.inField Json.asText))
      (← t.field 1 (Json.inField Json.asText))
  | "LoadedPkg" => do
    t.arity 1
    return .batchLoaded (← t.field 0 (Json.inField (Json.asList Json.asText)))
  | "Got" => do
    t.arity 2
    return .got (← t.field 0 (Json.inField Json.asText))
      (← t.field 1 (Json.inField (Json.asOption (Json.asList Json.asByte))))
  | _ => t.unknown

def ofJson (v : Json) : Except (TagError FieldError) Notice := Tagged.ofJson v >>= ofTagged

end Notice

inductive Message where
  | answer (a : Answer)
  | notice (n : Notice)
  deriving DecidableEq, Repr

namespace Message

def toJson : Message → Json
  | answer a => a.toJson
  | notice n => n.toJson

/-- Decode a message: as a notice, and as an answer if no notice has the tag. -/
def ofJson (v : Json) : Except (TagError FieldError) Message :=
  match Notice.ofJson v with
  | .ok n => .ok (.notice n)
  | .error (.unknownTag _) => (Answer.ofJson v).map .answer
  | .error e => .error e

def isAnswer : Message → Bool
  | answer _ => true
  | notice _ => false

end Message

end ProofHost
