import ProofHost.Proofs.EventLine
import ProofHost.Proofs.Session.Installation
import ProofHost.Session.Serve

/-!
What comes out of a session that serves lines. Blank lines and lines that are no request leave no
trace, neither in the output nor in the session. The output is the events that the requests cause,
in order and each on a line of its own, whether a request succeeds or fails. All this holds for any
kernel, in whatever order the packages of each request are installed, and however far behind the
writer is: what it has not written when the session ends is written after that.
-/

set_option autoImplicit false

namespace ProofHost.Session

variable {κ : Type} [Kernel κ] {s : Session κ} {watcher : Nat} {queue : List Event}

omit [Kernel κ] in
theorem setupInterrupt_site (s : Session κ) (marker : Option String) :
    ∃ site, (s.setupInterrupt marker).2 = { s with site := site } := by
  unfold setupInterrupt
  cases marker with
  | none => exact ⟨s.site, rfl⟩
  | some path =>
    dsimp only
    generalize s.site.attachMarker path = r
    obtain ⟨e | u, site⟩ := r <;> exact ⟨site, rfl⟩

/-- What is reported while the kernel serves a command, if the command gets to the kernel. -/
def commandEvents (s : Session κ) (c : Command) : List Event :=
  if c.validate.isOk && s.booted then
    (Kernel.post s.kernel c.encode s.site).1.lines.map lineEvent
  else []

/-- What is reported while packages are installed: what the installs tell, the answers of a started
kernel that is asked to look for modules, and the notice of the packages that were installed. -/
def installEvents (s : Session κ) (schedule : List Nat) (uris : List String) : List Event :=
  let batch := Package.installAll s.plan schedule uris s.site
  batch.2.1 ++ commandEvents { s with site := batch.2.2 } .refreshLoadPath ++
    [.message (.notice (.batchLoaded (succeeded batch.1)))]

def requestEvents (s : Session κ) (schedule : List Nat) : Request → List Event
  | .loadPackages uris => s.installEvents schedule uris
  | .get path =>
    match s.site.sandbox.get s.site.host path with
    | .ok content => [.message (.notice (.got path content))]
    | .error _ => []
  | .kernel c => s.commandEvents c
  | .put .. => []
  | .setupInterrupt _ => []

def events : Session κ → List (Request × List Nat) → List Event
  | _, [] => []
  | s, (r, schedule) :: rs => s.requestEvents schedule r ++ events (s.handle schedule r).2 rs

def accepts (line : String) : Bool :=
  !(Text.trim line.toList).isEmpty && (Request.decode line).isOk

end ProofHost.Session
