import ProofHost.Archive.Unpack
import ProofHost.Event
import ProofHost.Interrupt
import ProofHost.Package.Uri
import ProofHost.Turns

/-!
Installing packages. An install fetches an archive and writes its files one after another; it ends
with the first failure, and the files written before that stay. Several installs may be under way
at once, and a schedule says which of them takes each next step.
-/

set_option autoImplicit false

namespace ProofHost

inductive InstallCause where
  | fetch (e : FetchError)
  | archive (e : ArchiveError)
  | sandbox (e : SandboxError)
  deriving DecidableEq, Repr

def InstallCause.message : InstallCause → String
  | fetch e => e.message
  | archive e => e.message
  | sandbox e => e.message

/-- A failed install: the package's address as it was given, and the cause. -/
structure InstallError where
  uri : String
  cause : InstallCause
  deriving DecidableEq, Repr

def InstallError.message (e : InstallError) : String := e.uri ++ ": " ++ e.cause.message

/-- The result of an install: the virtual paths of the files that were written. -/
abbrev InstallResult := Except InstallError (List String)

structure InstallPlan where
  binaryRoot : String
  dir : String
  deriving DecidableEq, Repr

inductive Install where
  /-- Nothing has been done. -/
  | waiting (uri : String)
  /-- The archive is there; some entries are left, and the files at some paths are written. -/
  | writing (uri : String) (left : List (Except ArchiveError (String × Bytes)))
      (written : List String)
  | done (uri : String) (result : InstallResult)

namespace Install

def uri : Install → String
  | waiting u => u
  | writing u .. => u
  | done u _ => u

def result? : Install → Option InstallResult
  | done _ r => some r
  | _ => none

def notice (uri : String) : InstallResult → Notice
  | .ok _ => .packageLoaded uri
  | .error e => .packageFailed uri e.message

/-- What a step gives: the install after it, the reports it makes, and the site after it. -/
abbrev Outcome := Install × List Event × Site

def finish (uri : String) (result : InstallResult) (events : List Event) (site : Site) : Outcome :=
  (.done uri result, events ++ [.message (.notice (notice uri result))], site)

def fail (uri : String) (cause : InstallCause) (events : List Event) (site : Site) : Outcome :=
  finish uri (.error ⟨uri, cause⟩) events site

def fetch (plan : InstallPlan) (uri : String) (site : Site) : Outcome :=
  let (reports, fetched) :=
    Package.fetchReported site.network site.host (Package.resolve plan.binaryRoot uri)
  let events := reports.map (Event.progress uri)
  match fetched with
  | .error e => fail uri (.fetch e) events site
  | .ok bytes =>
    match Archive.unpack bytes with
    | .error e => fail uri (.archive e) events site
    | .ok entries => (.writing uri entries [], events, site)

def write (plan : InstallPlan) (uri : String) (written : List String) (site : Site) :
    List (Except ArchiveError (String × Bytes)) → Outcome
  | [] => finish uri (.ok written) [] site
  | .error e :: _ => fail uri (.archive e) [] site
  | .ok (name, content) :: left =>
    match site.put (Package.target plan.dir name) content with
    | (.ok path, site') => (.writing uri left (written ++ [path]), [], site')
    | (.error e, site') => fail uri (.sandbox e) [] site'

def step (plan : InstallPlan) (site : Site) : Install → Outcome
  | waiting uri => fetch plan uri site
  | writing uri left written => write plan uri written site left
  | done uri r => (.done uri r, [], site)

/-- The greatest number of steps an install can still take once its archive is there. -/
def stepsLeft : Install → Nat
  | writing _ left _ => left.length + 1
  | _ => 0

def run (plan : InstallPlan) (site : Site) (i : Install) : Outcome :=
  let (i', events, site') := i.step plan site
  let (i'', events', site'') := Turns.repeated (step plan) i'.stepsLeft site' i'
  (i'', events ++ events', site'')

end Install

namespace Package

def results (is : List Install) : List (String × InstallResult) :=
  is.filterMap fun i => i.result?.map fun r => (i.uri, r)

/--
Install several packages at once: as the schedule says as long as it goes, then one after another.
Results are in the order in which the packages were given.
-/
def installAll (plan : InstallPlan) (schedule : List Nat) (uris : List String) (site : Site) :
    List (String × InstallResult) × List Event × Site :=
  let (finished, events, site') :=
    Turns.all (Install.step plan) (Install.run plan) schedule site (uris.map .waiting)
  (results finished, events, site')

def install (plan : InstallPlan) (uri : String) (site : Site) :
    InstallResult × List Event × Site :=
  match Install.run plan site (.waiting uri) with
  | (.done _ r, events, site') => (r, events, site')
  | (_, events, site') => (.ok [], events, site')

end Package

end ProofHost
