import ProofHost.CommandLine.Places
import ProofHost.CommandLine.Run
import ProofHost.Host.Change

/-!
The program. What a run reads of the file system is taken into a host before the run, and what the
run changes is brought back after it; requests are served line by line as they come. No other
machine is reached.
-/

set_option autoImplicit false

namespace ProofHost.Main

def consulted : List String :=
  ["HOME", "XDG_CONFIG_HOME", "XDG_DATA_HOME", "TMPDIR", "PATH", "COQPOD_BINARY_ROOT",
    "COQPOD_KERNEL_IMAGE", "COQPOD_VFS_ROOT", "COQPOD_LIB_ROOT"]

def readEnvironment : IO Environment :=
  consulted.filterMapM fun name => do return (← IO.getEnv name).map fun value => (name, value)

def absolute (path : String) : IO String := do
  let workDir ← IO.currentDir
  return if Text.Path.isAbsolute path then path else Text.Path.below workDir.toString path

/-- Take a directory or a file with all that is in it into a host. -/
partial def readTree (h : Host) (path : String) : IO Host := do
  let place := (← IO.currentDir) / path
  if ← place.isDir then
    let mut h := (h.makeDirs path).2
    for entry in ← place.readDir do
      h ← readTree h (Text.Path.below path entry.fileName)
    return h
  else if ← place.pathExists then
    match h.write path (← IO.FS.readBinFile place).data.toList with
    | .ok h' => return h'
    | .error _ => return h
  else return h

def readPlace (h : Host) (path : String) : IO Host := do
  if path.isEmpty then return h
  let full ← absolute path
  let mut h := h
  for n in List.range (Host.names full).length do
    let above := Host.pathOf ((Host.names full).take n)
    let place := (← IO.currentDir) / above
    if ← place.isDir then h := (h.makeDirs above).2
    else if ← place.pathExists then h ← readTree h above
  readTree h full

def readPlaces (h : Host) (paths : List String) : IO Host := paths.foldlM readPlace h

def apply : Change → IO Unit
  | .makeDirectory path => IO.FS.createDirAll path
  | .writeFile path content => IO.FS.writeBinFile path ⟨content.toArray⟩
  | .removeFile path => IO.FS.removeFile path

def commit (before after : Host) : IO Unit := (before.changes after).forM apply

def print (output : Bytes) : IO Unit := do
  let stdout ← IO.getStdout
  stdout.write ⟨output.toArray⟩
  stdout.flush

def complain (message : String) : IO UInt32 := do
  IO.eprintln ("Error: " ++ message)
  return 1

section

variable {κ : Type} [Kernel κ]

/-- Serve the lines of the input until it ends. -/
partial def serveLines (watcher : Nat) (s : Session κ) : IO Unit := do
  let line ← (← IO.getStdin).getLine
  if line.isEmpty then return
  let before ← readPlaces s.site.host (CommandLine.placesOfLine s.config line)
  let served := { s with site := { s.site with host := before } }.takeLine (.plain line)
  commit before served.site.host
  let (events, bus) := served.bus.drain watcher
  print (Bytes.ofText (Session.outputOf events))
  serveLines watcher { served with bus := bus }

def serve (c : Config) (k : κ) (h : Host) : IO UInt32 := do
  match Session.new c k .unreachable h with
  | (.error e, h') =>
    commit h h'
    complain e.message
  | (.ok s, _) =>
    match s.boot [] [] with
    | (.error e, s') =>
      commit h s'.site.host
      complain e.message
    | (.ok _, s') =>
      commit h s'.site.host
      let (watcher, bus) := s'.bus.subscribe
      serveLines watcher { s' with bus := bus }
      return 0

end

def perform (env : Environment) (i : CommandLine.Invocation) : IO UInt32 := do
  let workDir := Host.names (← IO.currentDir).toString
  let found ← readPlaces (Host.empty workDir) (CommandLine.configPlaces env)
  let c := Config.ofEnvironment env found
  let h ← readPlaces found (CommandLine.placesOf c i)
  match i with
  | .serve .process => serve c (CommandLine.processKernel c.kernelArgs env) h
  | .serve .loopback => serve c CommandLine.loopbackKernel h
  | _ =>
    let r := CommandLine.perform env .unreachable h [] i
    commit h r.host
    print r.output
    match r.error with
    | some e => complain e
    | none => return UInt32.ofNat r.code

end ProofHost.Main

def main (arguments : List String) : IO UInt32 := do
  match ProofHost.CommandLine.Invocation.ofArguments arguments with
  | none =>
    IO.eprintln "usage: coqpod [stdio [-k process|loopback] | install URI... | get PATH | config [--save]]"
    return 2
  | some i => ProofHost.Main.perform (← ProofHost.Main.readEnvironment) i
