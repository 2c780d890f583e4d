import ProofHost.Session.Basic

/-!
Starting the kernel of a session: its image and its libraries are installed in the sandbox, the
marker is attached, the kernel is started and asked for a root state, and the first packages are
installed.
-/

set_option autoImplicit false

namespace ProofHost

/-- A file that a kernel needs, on its way into the sandbox. -/
inductive Binary where
  /-- It is to be fetched from an address and put at a virtual path. -/
  | wanted (uri path : String)
  | fetched (path : String) (content : Bytes)
  | settled (result : Except SessionError String)

namespace Binary

/-- Take the next step: fetch the file, or put it into the sandbox. -/
def step : Turns.Step Binary Event Site := fun site b =>
  match b with
  | wanted uri path =>
    let (reports, r) := Package.fetchReported site.network site.host uri
    match r with
    | .ok content => (fetched path content, reports.map (Event.progress uri), site)
    | .error e => (settled (.error (.fetch e)), reports.map (Event.progress uri), site)
  | fetched path content =>
    match site.put path content with
    | (.ok v, site') => (settled (.ok v), [], site')
    | (.error e, site') => (settled (.error (.sandbox e)), [], site')
  | settled r => (settled r, [], site)

def run : Turns.Step Binary Event Site := Turns.repeated step 2

/-- The virtual path at which the file is, or why it is not; none while it is on its way. -/
def result? : Binary → Option (Except SessionError String)
  | settled r => some r
  | _ => none

end Binary

namespace Session

variable {κ : Type}

/-- The files that the kernel needs: its image and then its libraries. -/
def binaries (c : Config) : List Binary :=
  .wanted (c.locate c.kernelImage) c.imagePath ::
    c.stubs.map fun stub => .wanted (c.locate stub) (c.stubPath stub)

def allPaths : List (Except SessionError String) → Except SessionError (List String)
  | [] => .ok []
  | .error e :: _ => .error e
  | .ok path :: results => (allPaths results).map (path :: ·)

def installBinaries (s : Session κ) (schedule : List Nat) :
    Except SessionError BootOrder × Session κ :=
  let (finished, events, site) :=
    Turns.all Binary.step Binary.run schedule s.site (binaries s.config)
  let s' := { s with site := site }.publish events
  match allPaths (finished.filterMap Binary.result?) with
  | .error e => (.error e, s')
  | .ok paths => (.ok ⟨paths.headD s.config.imagePath, paths.tail⟩, s')

def start [Kernel κ] (s : Session κ) (order : BootOrder) : Except SessionError Unit × Session κ :=
  match Kernel.boot s.kernel order s.site with
  | (.ok _, kernel, site) => (.ok (), { s with kernel := kernel, site := site, booted := true })
  | (.error e, kernel, site) => (.error (.kernel e), { s with kernel := kernel, site := site })

def announcedRoot (answers : List Answer) : Option StateId :=
  answers.findSome? fun a =>
    match a with
    | .ready root => some root
    | _ => none

def establishRoot [Kernel κ] (s : Session κ) : Except SessionError StateId × Session κ :=
  match s.command .init with
  | (.error e, s') => (.error e, s')
  | (.ok answers, s') =>
    match announcedRoot answers with
    | some root => (.ok root, s')
    | none => (.error .noRoot, s')

def installInitial [Kernel κ] (s : Session κ) (schedule : List Nat) :
    Except SessionError Unit × Session κ :=
  if s.config.initialPackages.isEmpty then (.ok (), s)
  else
    let (r, s') := s.installPackages schedule s.config.initialPackages true
    (r.map fun _ => (), s')

def andThen {α β : Type} (r : Except SessionError α × Session κ)
    (next : α → Session κ → Except SessionError β × Session κ) :
    Except SessionError β × Session κ :=
  match r with
  | (.error e, s) => (.error e, s)
  | (.ok a, s) => next a s

/-- Start a session; gives its root state. One schedule orders the installs of the kernel's files
and another one those of the first packages. -/
def boot [Kernel κ] (s : Session κ) (schedule initial : List Nat) :
    Except SessionError StateId × Session κ :=
  andThen (s.installBinaries schedule) fun order s =>
  andThen (s.setupInterrupt s.config.interruptMarker) fun _ s =>
  andThen (s.start order) fun _ s =>
  andThen s.establishRoot fun root s =>
  andThen (s.installInitial initial) fun _ s => (.ok root, s)

end Session

end ProofHost
