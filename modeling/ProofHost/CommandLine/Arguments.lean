/-!
The arguments of the program: what the caller asks for.
-/

set_option autoImplicit false

namespace ProofHost.CommandLine

inductive KernelKind where
  /-- The installed image runs as a program of its own. -/
  | process
  /-- The kernel inside the host. -/
  | loopback
  deriving DecidableEq, Repr

def KernelKind.name : KernelKind → String
  | process => "process"
  | loopback => "loopback"

def KernelKind.ofName? (name : String) : Option KernelKind :=
  [process, loopback].find? fun kind => kind.name == name

inductive Invocation where
  /-- Start a kernel and serve the requests on the input. -/
  | serve (kind : KernelKind)
  /-- Install packages without a kernel. -/
  | install (uris : List String)
  /-- Print a file of the sandbox. -/
  | get (path : String)
  /-- Print the configuration, and write it to the user's file if that is wanted. -/
  | config (save : Bool)
  deriving DecidableEq, Repr

inductive Argument where
  | short (name : Char) (value : Option String)
  | long (name : String) (value : Option String)
  | plain (text : String)
  deriving DecidableEq, Repr

def Argument.ofText (text : String) : Argument :=
  match text.toList with
  | '-' :: '-' :: rest =>
    let name := rest.takeWhile (· != '=')
    match rest.dropWhile (· != '=') with
    | _ :: value => .long (String.ofList name) (some (String.ofList value))
    | [] => .long (String.ofList name) none
  | '-' :: c :: '=' :: value => .short c (some (String.ofList value))
  | ['-', c] => .short c none
  | '-' :: c :: value => .short c (some (String.ofList value))
  | _ => .plain text

def plainTexts : List String → Option (List String)
  | [] => some []
  | "--" :: rest => some rest
  | arg :: rest =>
    match Argument.ofText arg with
    | .plain text => (plainTexts rest).map (text :: ·)
    | _ => none

def kernelOption (arg : String) : Option (Option String) :=
  match Argument.ofText arg with
  | .short 'k' value => some value
  | .long "kernel" value => some value
  | _ => none

def isOver : List String → Bool
  | [] => true
  | ["--"] => true
  | _ => false

def serviceKind : List String → Option KernelKind
  | [] => some .process
  | ["--"] => some .process
  | arg :: rest =>
    match kernelOption arg, rest with
    | some (some name), _ => if isOver rest then KernelKind.ofName? name else none
    | some none, name :: rest' => if isOver rest' then KernelKind.ofName? name else none
    | _, _ => none

def Invocation.ofArguments : List String → Option Invocation
  | [] => some (.serve .process)
  | ["--"] => some (.serve .process)
  | "stdio" :: rest => (serviceKind rest).map .serve
  | "install" :: rest =>
    match plainTexts rest with
    | some (uri :: uris) => some (.install (uri :: uris))
    | _ => none
  | "get" :: rest =>
    match plainTexts rest with
    | some [path] => some (.get path)
    | _ => none
  | ["config"] => some (.config false)
  | ["config", "--"] => some (.config false)
  | ["config", "--save"] => some (.config true)
  | ["config", "--save", "--"] => some (.config true)
  | _ => none

end ProofHost.CommandLine
