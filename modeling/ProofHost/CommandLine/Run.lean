import ProofHost.CommandLine.Arguments
import ProofHost.Config.File
import ProofHost.Kernel.Child
import ProofHost.Kernel.Simulated
import ProofHost.Session.Serve
import ProofHost.Shell.Program

/-!
One run of the program: from the environment, the host's files, the input and the arguments to the
output, the exit code and the files after it.
-/

set_option autoImplicit false

namespace ProofHost.CommandLine

structure Outcome where
  code : Nat
  output : Bytes
  /-- What went wrong, if anything did. -/
  error : Option String
  host : Host

def Outcome.success (output : Bytes) (h : Host) : Outcome := ⟨0, output, none, h⟩

def Outcome.failure (output : Bytes) (error : String) (h : Host) : Outcome :=
  ⟨1, output, some error, h⟩

def Outcome.misuse (h : Host) : Outcome := ⟨2, [], none, h⟩

def loopbackKernel : SimulatedKernel := .new (fun _ => none) 1

def processKernel (arguments : List String) (env : Environment) : ChildKernel Shell.Machine :=
  .new arguments env

def lineText (b : Bytes) : Option String :=
  (Bytes.toText? b).map fun s =>
    match s.toList.reverse with
    | '\n' :: '\r' :: rest => String.ofList rest.reverse
    | '\n' :: rest => String.ofList rest.reverse
    | _ => s

def readLines : List Bytes → List String × Bool
  | [] => ([], true)
  | b :: rest =>
    match lineText b with
    | none => ([], false)
    | some line =>
      let (lines, whole) := readLines rest
      (line :: lines, whole)

section

variable {κ : Type} [Kernel κ]

def serve (c : Config) (k : κ) (network : Network) (h : Host) (input : Bytes) : Outcome :=
  match Session.new c k network h with
  | (.error e, h') => .failure [] e.message h'
  | (.ok s, _) =>
    match s.boot [] [] with
    | (.error e, s') => .failure [] e.message s'.site.host
    | (.ok _, s') =>
      let (lines, whole) := readLines (Bytes.lines input)
      let (output, s'') := s'.serve (lines.map .plain)
      let printed := Bytes.ofText output
      if whole then .success printed s''.site.host
      else .failure printed OsError.notText.message s''.site.host

end

def noticeLines (events : List Event) : String :=
  String.join ((events.filterMap Event.message?).filterMap fun m =>
    match m with
    | .notice n => some (n.encode ++ "\n")
    | .answer _ => none)

def install (c : Config) (env : Environment) (network : Network) (h : Host) (uris : List String) :
    Outcome :=
  match Session.new c (processKernel c.kernelArgs env) network h with
  | (.error e, h') => .failure [] e.message h'
  | (.ok s, _) =>
    let (watcher, bus) := s.bus.subscribe
    let (r, s') := { s with bus := bus }.installPackages [] uris false
    let printed := Bytes.ofText (noticeLines (s'.bus.drain watcher).1)
    match r with
    | .ok _ => .success printed s'.site.host
    | .error e => .failure printed e.message s'.site.host

def get (c : Config) (env : Environment) (network : Network) (h : Host) (path : String) : Outcome :=
  match Session.new c (processKernel [] env) network h with
  | (.error e, h') => .failure [] e.message h'
  | (.ok s, h') =>
    match s.site.sandbox.get h' path with
    | .error e => .failure [] e.message h'
    | .ok none => .failure [] (path ++ ": no such file") h'
    | .ok (some content) => .success content h'

/-- Print the configuration, and write it to the user's file if that is wanted. -/
def showConfig (c : Config) (env : Environment) (h : Host) (save : Bool) : Outcome :=
  let printed := Bytes.ofText (c.render ++ "\n")
  if save then
    match c.save env h with
    | (.ok _, h') => .success printed h'
    | (.error e, h') => .failure printed e.headline h'
  else .success printed h

def perform (env : Environment) (network : Network) (h : Host) (input : Bytes) :
    Invocation → Outcome
  | .serve .process =>
    let c := Config.ofEnvironment env h
    serve c (processKernel c.kernelArgs env) network h input
  | .serve .loopback => serve (Config.ofEnvironment env h) loopbackKernel network h input
  | .install uris => install (Config.ofEnvironment env h) env network h uris
  | .get path => get (Config.ofEnvironment env h) env network h path
  | .config save => showConfig (Config.ofEnvironment env h) env h save

def run (env : Environment) (network : Network) (h : Host) (input : Bytes)
    (arguments : List String) : Outcome :=
  match Invocation.ofArguments arguments with
  | none => .misuse h
  | some i => perform env network h input i

end ProofHost.CommandLine
