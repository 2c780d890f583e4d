import ProofHost.Host.Basic

/-!
The sandbox: a host directory whose files are addressed by virtual paths. Virtual paths are
absolute; a path that does not begin with a slash lies below the library root, and no path leads
above the sandbox.
-/

set_option autoImplicit false

namespace ProofHost

structure Sandbox where
  root : String
  libRoot : String
  deriving DecidableEq, Repr

inductive SandboxError where
  /-- The path leads above the sandbox. -/
  | escape (path : String)
  /-- The operating system refuses. -/
  | os (path : String) (cause : OsError)
  deriving DecidableEq, Repr

def SandboxError.message : SandboxError → String
  | escape path => "path '" ++ path ++ "' escapes the filesystem root"
  | os path cause => "I/O error on '" ++ path ++ "': " ++ cause.message

namespace Sandbox

def defaultLibRoot : String := "/lib"

/-- The form of a configured library root: absolute, without slashes at the end. -/
def normalizeLibRoot (libRoot : String) : String :=
  let trimmed := Text.Path.dropEndSlashes libRoot
  if Text.Path.isAbsolute trimmed then trimmed else "/" ++ trimmed

def «open» (h : Host) (root : String) : Except SandboxError Sandbox × Host :=
  match h.makeDirs root with
  | (.ok _, h') => (.ok ⟨root, defaultLibRoot⟩, h')
  | (.error e, h') => (.error (.os "/" e), h')

def withLibRoot (s : Sandbox) (libRoot : String) : Sandbox :=
  { s with libRoot := normalizeLibRoot libRoot }

/-- Take up the components of a path one by one, the last ordinary one first. -/
def walk : List String → List String → Option (List String)
  | kept, [] => some kept
  | kept, part :: rest =>
    if part = "" || part = "." then walk kept rest
    else if part = ".." then
      match kept with
      | [] => none
      | _ :: kept' => walk kept' rest
    else walk (part :: kept) rest

/-- The path with the library root in front unless it is absolute. -/
def fullPath (s : Sandbox) (path : String) : String :=
  if Text.Path.isAbsolute path then path else s.libRoot ++ "/" ++ path

/-- The components of a virtual path; none when it leads above the sandbox. -/
def components? (s : Sandbox) (path : String) : Option (List String) :=
  (walk [] (Text.Path.split (s.fullPath path))).map List.reverse

def renderPath (parts : List String) : String := "/" ++ Text.Path.join parts

def virtualPath (s : Sandbox) (path : String) : Except SandboxError String :=
  match s.components? path with
  | some parts => .ok (renderPath parts)
  | none => .error (.escape path)

def resolve (s : Sandbox) (path : String) : Except SandboxError String :=
  (s.virtualPath path).map fun v => Text.Path.below s.root (Text.Path.dropStartSlashes v)

/-- Write a file, making the directories above it; gives the path in its one spelling. -/
def put (s : Sandbox) (h : Host) (path : String) (content : Bytes) :
    Except SandboxError String × Host :=
  match s.virtualPath path with
  | .error e => (.error e, h)
  | .ok v =>
    match s.resolve v with
    | .error e => (.error e, h)
    | .ok host =>
      let made :=
        match Text.Path.parent? host with
        | some dir => h.makeDirs dir
        | none => (.ok (), h)
      match made with
      | (.error e, h') => (.error (.os v e), h')
      | (.ok _, h') =>
        match h'.write host content with
        | .ok h'' => (.ok v, h'')
        | .error e => (.error (.os v e), h')

def get (s : Sandbox) (h : Host) (path : String) : Except SandboxError (Option Bytes) :=
  match s.resolve path with
  | .error e => .error e
  | .ok host =>
    if h.isFile host then
      match h.read host with
      | .ok content => .ok (some content)
      | .error .notFound => .ok none
      | .error e => .error (.os path e)
    else .ok none

def holds (s : Sandbox) (h : Host) (path : String) : Bool :=
  match s.resolve path with
  | .ok host => h.pathExists host
  | .error _ => false

def remove (s : Sandbox) (h : Host) (path : String) : Except SandboxError Bool × Host :=
  match s.resolve path with
  | .error e => (.error e, h)
  | .ok host =>
    match h.remove host with
    | .ok h' => (.ok true, h')
    | .error .notFound => (.ok false, h)
    | .error e => (.error (.os path e), h)

/-- The virtual paths of all files below a directory, sorted. -/
def list (s : Sandbox) (h : Host) (dir : String) : Except SandboxError (List String) :=
  match s.components? dir with
  | none => .error (.escape dir)
  | some parts =>
    match s.resolve (renderPath parts) with
    | .error e => .error e
    | .ok host =>
      .ok (((h.filesBelow host).map fun names => renderPath (parts ++ names)).mergeSort
        fun a b => decide (a ≤ b))

end Sandbox

end ProofHost
