import ProofHost.Config.Basic
import ProofHost.Document.Basic
import ProofHost.Kernel.Basic
import ProofHost.Package.Install

/-!
A session: one kernel with its sandbox, its interrupt flag and those who watch it. The session keeps
a document of its own in step with the answers of the kernel.
-/

set_option autoImplicit false

namespace ProofHost

structure Session (κ : Type) where
  config : Config
  kernel : κ
  booted : Bool
  site : Site
  bus : EventBus
  document : Document

inductive SessionError where
  | command (cause : DecodeError)
  | sandbox (cause : SandboxError)
  | fetch (cause : FetchError)
  | install (cause : InstallError)
  | kernel (cause : KernelError)
  | notBooted
  /-- The kernel did not announce a root state. -/
  | noRoot
  deriving DecidableEq, Repr

def SessionError.message : SessionError → String
  | command cause => "invalid command: " ++ cause.message
  | sandbox cause => cause.message
  | fetch cause => cause.message
  | install cause => cause.message
  | kernel cause => cause.message
  | notBooted => "kernel is not booted"
  | noRoot => "boot sequence did not establish a root state"

/-- The document after an answer to a command; it does not matter whether the answer fits it. -/
def Document.track (d : Document) (command : Command) (answer : Answer) : Document :=
  match command, answer with
  | _, .ready root => d.reset root
  | .add editAt parent text _, .added id _ => (d.insert id editAt parent text).2
  | .cancel id, .backTo _ => (d.cancel id).2
  | _, .failed _ (some (good, bad)) _ => (d.rollback good bad).2
  | _, _ => d

namespace Session

variable {κ : Type}

def new (config : Config) (kernel : κ) (network : Network) (h : Host) :
    Except SandboxError (Session κ) × Host :=
  match Sandbox.open h config.sandboxRoot with
  | (.error e, h') => (.error e, h')
  | (.ok s, h') =>
    (.ok {
      config := config
      kernel := kernel
      booted := false
      site := Site.new network h' (s.withLibRoot config.libRoot)
      bus := .new
      document := .new }, h')

def publish (s : Session κ) (events : List Event) : Session κ :=
  { s with bus := s.bus.publishAll events }

def notify (s : Session κ) (n : Notice) : Session κ := s.publish [.message (.notice n)]

def hear (s : Session κ) (command : Command) (answer : Answer) : Session κ :=
  { s with document := s.document.track command answer }.publish [.message (.answer answer)]

/--
Let the kernel serve a command. Its answers are reported one by one, and an interrupt that came too
late for the command does not reach the next one.
-/
def command [Kernel κ] (s : Session κ) (c : Command) :
    Except SessionError (List Answer) × Session κ :=
  match c.validate with
  | .error e => (.error (.command e), s)
  | .ok _ =>
    if !s.booted then (.error .notBooted, s)
    else
      let (reply, kernel, site) := Kernel.post s.kernel c.encode s.site
      let answers := reply.lines.map Answer.ofLine
      let heard := answers.foldl (fun s a => s.hear c a) { s with kernel := kernel, site := site }
      let after := { heard with site := heard.site.clearInterrupt }
      match reply.failure with
      | some e => (.error (.kernel e), after)
      | none => (.ok answers, after)

/-- Let the kernel serve several commands in order. -/
def commands [Kernel κ] :
    List Command → Session κ → List (Except SessionError (List Answer)) × Session κ
  | [], s => ([], s)
  | c :: cs, s =>
    let (r, s') := s.command c
    let (rs, s'') := commands cs s'
    (r :: rs, s'')

def plan (s : Session κ) : InstallPlan := ⟨s.config.binaryRoot, s.config.packageDir⟩

def succeeded (results : List (String × InstallResult)) : List String :=
  (results.filter fun r => r.2.toOption.isSome).map Prod.fst

def firstFailure (results : List (String × InstallResult)) : Option InstallError :=
  results.findSome? fun r =>
    match r.2 with
    | .error e => some e
    | .ok _ => none

/--
Install packages, then let a started kernel look for their modules, and last give notice of those
that were installed.
-/
def installPackages [Kernel κ] (s : Session κ) (schedule : List Nat) (uris : List String)
    (refresh : Bool) : Except SessionError (List String) × Session κ :=
  let (results, events, site) := Package.installAll s.plan schedule uris s.site
  let loaded := succeeded results
  let installed := { s with site := site }.publish events
  let (refreshed, after) :=
    if refresh && installed.booted then installed.command .refreshLoadPath
    else (.ok [], installed)
  let told := after.notify (.batchLoaded loaded)
  match firstFailure results with
  | some e => (.error (.install e), told)
  | none => (refreshed.map fun _ => loaded, told)

def setupInterrupt (s : Session κ) (marker : Option String) :
    Except SessionError Unit × Session κ :=
  match marker with
  | none => (.ok (), s)
  | some path =>
    match s.site.attachMarker path with
    | (.ok _, site) => (.ok (), { s with site := site })
    | (.error e, site) => (.error (.sandbox e), { s with site := site })

/-- Do what a request asks. The schedule orders the installs of packages that it names. -/
def handle [Kernel κ] (s : Session κ) (schedule : List Nat) :
    Request → Except SessionError Unit × Session κ
  | .loadPackages uris =>
    let (r, s') := s.installPackages schedule uris true
    (r.map fun _ => (), s')
  | .put path content =>
    match s.site.put path content.toBytes with
    | (.ok _, site) => (.ok (), { s with site := site })
    | (.error e, site) => (.error (.sandbox e), { s with site := site })
  | .get path =>
    match s.site.sandbox.get s.site.host path with
    | .ok content => (.ok (), s.notify (.got path content))
    | .error e => (.error (.sandbox e), s)
  | .setupInterrupt setup => s.setupInterrupt setup.marker
  | .kernel c =>
    let (r, s') := s.command c
    (r.map fun _ => (), s')

def shutdown (s : Session κ) : Session κ := { s with bus := s.bus.close }

end Session

end ProofHost
