import ProofHost.Kernel.Basic
import ProofHost.Kernel.Program

/-!
A kernel that is a program beside the host. Each command goes to the program as one line, and the
program answers with lines of which a blank one ends the answers to the command.
-/

set_option autoImplicit false

namespace ProofHost

structure ChildKernel (π : Type) where
  /-- The program's arguments. -/
  arguments : List String
  /-- The variables that the program inherits. -/
  environment : Environment
  program : Option π
  /-- What the program has put out and nobody has read. -/
  unread : Bytes

namespace ChildKernel

variable {π : Type}

def new (arguments : List String) (environment : Environment) : ChildKernel π :=
  ⟨arguments, environment, none, []⟩

def resolveAll (s : Sandbox) : List String → Except SandboxError (List String)
  | [] => .ok []
  | path :: paths => do return (← s.resolve path) :: (← resolveAll s paths)

def settings (site : Site) (stubs : List String) : Environment :=
  [("COQPOD_LIB_ROOT", site.sandbox.libRoot), ("COQPOD_STUBS", ":".intercalate stubs)] ++
    match site.markerPath with
    | some path => [("COQPOD_INTERRUPT", path)]
    | none => []

def boot [Program π] (k : ChildKernel π) (order : BootOrder) (site : Site) :
    Except KernelError Unit × ChildKernel π × Site :=
  match site.sandbox.resolve order.image with
  | .error e => (.error (.sandbox e), k, site)
  | .ok image =>
    if !site.host.isFile image then (.error (.missingImage order.image), k, site)
    else
      match resolveAll site.sandbox order.stubs with
      | .error e => (.error (.sandbox e), k, site)
      | .ok stubs =>
        let launch : Launch :=
          ⟨image, k.arguments, settings site stubs ++ k.environment, site.sandbox.root⟩
        match Program.start (π := π) launch site.host with
        | (.error e, h) => (.error (.io e), k, { site with host := h })
        | (.ok (program, output), h) =>
          (.ok (), { k with program := some program, unread := output }, { site with host := h })

inductive Line where
  | text (s : List Char)
  /-- The line ends the answers to a command. -/
  | blank
  | unreadable
  deriving DecidableEq, Repr

def Line.ofBytes (b : Bytes) : Line :=
  match Bytes.toText? b with
  | none => .unreadable
  | some s =>
    match Text.trim s.toList with
    | [] => .blank
    | cs => .text cs

/-- Read the answers to one command; gives the lines that are left. -/
def readReply : List Bytes → Reply × List Bytes
  | [] => (⟨[], some .exited⟩, [])
  | b :: rest =>
    match Line.ofBytes b with
    | .blank => (⟨[], none⟩, rest)
    | .unreadable => (⟨[], some (.io .notText)⟩, rest)
    | .text line =>
      let (reply, left) := readReply rest
      (⟨String.ofList line :: reply.lines, reply.failure⟩, left)

def commandLine (command : String) : Bytes := Bytes.ofText command ++ [10]

def post [Program π] (k : ChildKernel π) (command : String) (site : Site) :
    Reply × ChildKernel π × Site :=
  match k.program with
  | none => (⟨[], some .notBooted⟩, k, site)
  | some program =>
    if Program.hasEnded program then (⟨[], some (.io .brokenPipe)⟩, k, site)
    else
      let ((program', output), h) := Program.feed program (commandLine command) site.host
      let (reply, left) := readReply (Bytes.lines (k.unread ++ output))
      (reply, { k with program := some program', unread := left.flatten },
        { site with host := h })

instance [Program π] : Kernel (ChildKernel π) := ⟨boot, post⟩

end ChildKernel

end ProofHost
