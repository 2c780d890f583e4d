import ProofHost.Network
import ProofHost.Sandbox.Basic

/-!
The interrupt flag. A client sets it, a kernel takes it between the steps of its work. While a
marker is attached, setting the flag makes a file of the sandbox and clearing it removes the file,
for kernels that live outside the host.
-/

set_option autoImplicit false

namespace ProofHost

/-- The flag and the virtual path of the attached marker. -/
structure Interrupt where
  isSet : Bool
  marker : Option String
  deriving DecidableEq, Repr

/-- The place where a session works: the other machines, the host, its sandbox and the interrupt
flag. -/
structure Site where
  network : Network
  host : Host
  sandbox : Sandbox
  interrupt : Interrupt

def Interrupt.clear : Interrupt := ⟨false, none⟩

namespace Site

def new (network : Network) (host : Host) (sandbox : Sandbox) : Site :=
  ⟨network, host, sandbox, .clear⟩

def put (site : Site) (path : String) (content : Bytes) : Except SandboxError String × Site :=
  let (r, h) := site.sandbox.put site.host path content
  (r, { site with host := h })

def remove (site : Site) (path : String) : Except SandboxError Bool × Site :=
  let (r, h) := site.sandbox.remove site.host path
  (r, { site with host := h })

def markerContent : Bytes := Bytes.ofText "1"

/-- Make the file at a marker's path exist or not. -/
def writeMarker (site : Site) (path : String) (present : Bool) :
    Except SandboxError Unit × Site :=
  if present then
    let (r, site') := site.put path markerContent
    (r.map fun _ => (), site')
  else
    let (r, site') := site.remove path
    (r.map fun _ => (), site')

/-- Show the flag in the attached marker; a failure of that is passed over. -/
def showFlag (site : Site) (present : Bool) : Site :=
  match site.interrupt.marker with
  | none => site
  | some path => (site.writeMarker path present).2

def setInterrupt (site : Site) : Site :=
  { site with interrupt := { site.interrupt with isSet := true } }.showFlag true

def clearInterrupt (site : Site) : Site :=
  { site with interrupt := { site.interrupt with isSet := false } }.showFlag false

/-- Poll the flag: tells whether it was set, and clears it. -/
def takeInterrupt (site : Site) : Bool × Site :=
  if site.interrupt.isSet then
    (true, { site with interrupt := { site.interrupt with isSet := false } }.showFlag false)
  else (false, site)

/--
Attach a marker: bring its file in line with the flag, then let it take the place of the marker
before it, whose file is removed last.
-/
def attachMarker (site : Site) (path : String) : Except SandboxError Unit × Site :=
  match site.sandbox.virtualPath path with
  | .error e => (.error e, site)
  | .ok v =>
    match site.writeMarker v site.interrupt.isSet with
    | (.error e, site') => (.error e, site')
    | (.ok _, site') =>
      let attached := { site' with interrupt := { site'.interrupt with marker := some v } }
      match site.interrupt.marker with
      | none => (.ok (), attached)
      | some before => attached.writeMarker before false

def markerPath (site : Site) : Option String :=
  site.interrupt.marker.bind fun path => (site.sandbox.resolve path).toOption

end Site

end ProofHost
