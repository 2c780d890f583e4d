import ProofHost.Environment
import ProofHost.Host.Basic

/-!
Programs that run beside the host. A program is started from a file, is given input, and gives
output until it waits for more input or ends.
-/

set_option autoImplicit false

namespace ProofHost

structure Launch where
  /-- The host path of its file, which the program follows from its own directory. -/
  file : String
  arguments : List String
  environment : Environment
  /-- The host path of its directory. -/
  directory : String

class Program (π : Type) where
  /-- Start a program; gives its first output. -/
  start : Launch → Host → Except OsError (π × Bytes) × Host
  /-- Give a program input and let it go on; gives what it puts out. -/
  feed : π → Bytes → Host → (π × Bytes) × Host
  /-- Has the program ended? -/
  hasEnded : π → Bool

end ProofHost
