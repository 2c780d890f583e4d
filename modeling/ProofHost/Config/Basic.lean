import ProofHost.Environment
import ProofHost.Json.Printer
import ProofHost.Json.Record
import ProofHost.Sandbox.Basic

/-!
The configuration of a session: where its kernel, its sandbox and its packages are. A configuration
is a record of ten fields; every field that is left out takes its default.
-/

set_option autoImplicit false

namespace ProofHost

structure Config where
  /-- The place of the kernel and the bundled packages: a host directory or a remote address. -/
  binaryRoot : String
  /-- The kernel image, named relative to the binary root unless it is absolute. -/
  kernelImage : String
  /-- The virtual path at which the image is installed. -/
  imagePath : String
  /-- The libraries that are installed next to the image. -/
  stubs : List String
  /-- The further arguments of a kernel that runs as a program of its own. -/
  kernelArgs : List String
  /-- The host directory of the sandbox. -/
  sandboxRoot : String
  libRoot : String
  /-- The directory of installed packages, relative to the library root. -/
  packageDir : String
  /-- The packages that are installed right after the kernel has started. -/
  initialPackages : List String
  /-- The virtual path of the file that shows the interrupt flag, if the kernel needs one. -/
  interruptMarker : Option String
  deriving DecidableEq, Repr

namespace Config

def appName : String := "coqpod"

def defaultSandboxRoot (env : Environment) : String :=
  match env.dataDir? with
  | some dir => Text.Path.below (Text.Path.below dir appName) "vfs"
  | none => Text.Path.below env.tempDir "coqpod-vfs"

def default (env : Environment) : Config where
  binaryRoot := "./bin"
  kernelImage := "coq/kernel.img"
  imagePath := "/bin/kernel.img"
  stubs := []
  kernelArgs := []
  sandboxRoot := defaultSandboxRoot env
  libRoot := Sandbox.defaultLibRoot
  packageDir := ""
  initialPackages := []
  interruptMarker := none

def toFields (c : Config) : List (String × Json) := [
  ("binary_root", .string c.binaryRoot),
  ("kernel_image", .string c.kernelImage),
  ("image_path", .string c.imagePath),
  ("stubs", Json.ofTexts c.stubs),
  ("kernel_args", Json.ofTexts c.kernelArgs),
  ("vfs_root", .string c.sandboxRoot),
  ("lib_root", .string c.libRoot),
  ("pkg_dir", .string c.packageDir),
  ("init_pkgs", Json.ofTexts c.initialPackages),
  ("interrupt_marker", Json.ofOption .string c.interruptMarker)]

def toJson (c : Config) : Json := .object c.toFields

/-- The shape of a configuration in which the fields left out are those of the given one. -/
def shape (c : Config) : RecordShape where
  name := "PodConfig"
  fields := [
    .scalar "binary_root" Json.asText (some (.string c.binaryRoot)),
    .scalar "kernel_image" Json.asText (some (.string c.kernelImage)),
    .scalar "image_path" Json.asText (some (.string c.imagePath)),
    .texts "stubs" (some (Json.ofTexts c.stubs)),
    .texts "kernel_args" (some (Json.ofTexts c.kernelArgs)),
    .scalar "vfs_root" (Json.textCalled "path string") (some (.string c.sandboxRoot)),
    .scalar "lib_root" Json.asText (some (.string c.libRoot)),
    .scalar "pkg_dir" Json.asText (some (.string c.packageDir)),
    .texts "init_pkgs" (some (Json.ofTexts c.initialPackages)),
    .scalar "interrupt_marker" (Json.asOption Json.asText)
      (some (Json.ofOption .string c.interruptMarker))]

def ofValues : List Json → Except Mismatch Config
  | [binaryRoot, kernelImage, imagePath, stubs, kernelArgs, sandboxRoot, libRoot, packageDir,
      initialPackages, interruptMarker] => do
    return {
      binaryRoot := ← Json.asText binaryRoot
      kernelImage := ← Json.asText kernelImage
      imagePath := ← Json.asText imagePath
      stubs := ← Json.asList Json.asText stubs
      kernelArgs := ← Json.asList Json.asText kernelArgs
      sandboxRoot := ← Json.textCalled "path string" sandboxRoot
      libRoot := ← Json.asText libRoot
      packageDir := ← Json.asText packageDir
      initialPackages := ← Json.asList Json.asText initialPackages
      interruptMarker := ← Json.asOption Json.asText interruptMarker }
  | values => .error (.short values.length "struct PodConfig with 10 elements")

/-- Decode a configuration whose missing fields are taken from the given one. -/
def ofJson (base : Config) : Json.Decoder Config := fun v => base.shape.ofJson v >>= ofValues

/-- The configuration with the settings that environment variables make. -/
def override (c : Config) (env : Environment) : Config :=
  { c with
    binaryRoot := (env.lookup "COQPOD_BINARY_ROOT").getD c.binaryRoot
    kernelImage := (env.lookup "COQPOD_KERNEL_IMAGE").getD c.kernelImage
    sandboxRoot := (env.lookup "COQPOD_VFS_ROOT").getD c.sandboxRoot
    libRoot := (env.lookup "COQPOD_LIB_ROOT").getD c.libRoot }

/-- The place of a resource: as it stands when it is an address or absolute, else below the root. -/
def locate (c : Config) (name : String) : String :=
  if Text.contains name.toList "://".toList || Text.Path.isAbsolute name then name
  else Text.Path.dropEndSlashes c.binaryRoot ++ "/" ++ name

/-- The virtual path of a stub: its own last component in the directory of the image. -/
def stubPath (c : Config) (stub : String) : String :=
  let dir := ((Text.Path.cut c.imagePath).map Prod.fst).getD ""
  let name := ((Text.Path.cut stub).map Prod.snd).getD stub
  dir ++ "/" ++ name

end Config

end ProofHost
