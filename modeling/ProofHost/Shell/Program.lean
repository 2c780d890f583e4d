import ProofHost.Kernel.Program
import ProofHost.Shell.Machine

/-!
Scripts as programs. A script is read as a whole when it is started, and its first line has to name
an interpreter that is known.
-/

set_option autoImplicit false

namespace ProofHost

namespace Shell

def interpreter? (content : Bytes) : Option String :=
  match Bytes.toChars content with
  | '#' :: '!' :: rest => some (String.ofList (Text.trim (rest.takeWhile (· != '\n'))))
  | _ => none

def interpreters : List String := ["/bin/sh", "/usr/bin/env sh", "/bin/dash"]

def variablesOf (env : Environment) : List (Chars × Chars) :=
  env.map fun (name, value) => (name.toList, Bytes.toChars (Bytes.ofText value))

def Machine.ofScript (l : Launch) (workDir : List String) (content : Bytes) : Machine where
  tasks := match readScript (Bytes.toChars content) with
    | some c => [.run c]
    | none => []
  values := {
    bindings := ("PWD".toList, Bytes.toChars (Bytes.ofText (Host.pathOf workDir))) ::
      variablesOf l.environment
    arguments := (l.file :: l.arguments).map fun a => Bytes.toChars (Bytes.ofText a)
    status := 0 }
  workDir := workDir
  input := []
  output := []

def workDirOf (l : Launch) (h : Host) : Except OsError (List String) :=
  match h.locate l.directory with
  | .error e => .error e
  | .ok (place, some (.directory _)) => .ok place
  | .ok (_, some (.file _)) => .error .notDirectory
  | .ok (_, none) => .error .notFound

def load (l : Launch) (h : Host) : Except OsError Machine := do
  let workDir ← workDirOf l h
  let content ← { h with workDir := workDir }.read l.file
  match interpreter? content with
  | none => .error .badProgram
  | some name =>
    if interpreters.contains name then return .ofScript l workDir content else .error .notFound

def start (l : Launch) (h : Host) : Except OsError (Machine × Bytes) × Host :=
  match load l h with
  | .error e => (.error e, h)
  | .ok m =>
    let (r, h') := m.proceed h
    (.ok r, h')

def feed (m : Machine) (input : Bytes) (h : Host) : (Machine × Bytes) × Host :=
  { m with input := m.input ++ Bytes.toChars input }.proceed h

instance : Program Machine := ⟨start, feed, Machine.hasEnded⟩

end Shell

end ProofHost
