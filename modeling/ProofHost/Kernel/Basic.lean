import ProofHost.Interrupt

/-!
Kernels. A kernel is started once its image is installed in the sandbox, and then serves commands,
one line each; it answers each with lines of its own.
-/

set_option autoImplicit false

namespace ProofHost

/-- Why a kernel cannot be started or does not serve a command. -/
inductive KernelError where
  | notBooted
  /-- The image, or a library that belongs to it, is not in the sandbox. -/
  | missingImage (path : String)
  | io (cause : OsError)
  /-- The kernel has ended. -/
  | exited
  | sandbox (cause : SandboxError)
  deriving DecidableEq, Repr

def KernelError.message : KernelError → String
  | notBooted => "kernel is not booted"
  | missingImage path => "kernel image '" ++ path ++ "' is not installed"
  | io cause => "kernel I/O error: " ++ cause.message
  | exited => "kernel exited"
  | sandbox cause => cause.message

/-- What a kernel is started from: the virtual paths of its image and of its libraries. -/
structure BootOrder where
  image : String
  stubs : List String
  deriving DecidableEq, Repr

/-- What a kernel says to a command: some lines, and the failure after them if there is one. -/
structure Reply where
  lines : List String
  failure : Option KernelError
  deriving DecidableEq, Repr

class Kernel (κ : Type) where
  /-- Start a kernel. -/
  boot : κ → BootOrder → Site → Except KernelError Unit × κ × Site
  /-- Let a kernel serve one command. -/
  post : κ → String → Site → Reply × κ × Site

end ProofHost
