import ProofHost.Host.Tree
import ProofHost.Text.Path

/-!
The host's file system: one tree and a working directory. Paths are texts as programs write them,
absolute or relative, and are followed name by name, so that each failure has the cause that the
first name which cannot be followed gives.
-/

set_option autoImplicit false

namespace ProofHost

/-- Why the operating system refuses an operation. -/
inductive OsError where
  | notFound
  | exists
  | notDirectory
  | isDirectory
  | nameTooLong
  | brokenPipe
  | badProgram
  | nulInName
  | notText
  /-- A refusal with a wording of its own. -/
  | other (text : String)
  deriving DecidableEq, Repr

def OsError.message : OsError → String
  | notFound => "No such file or directory (os error 2)"
  | «exists» => "File exists (os error 17)"
  | notDirectory => "Not a directory (os error 20)"
  | isDirectory => "Is a directory (os error 21)"
  | nameTooLong => "File name too long (os error 36)"
  | brokenPipe => "Broken pipe (os error 32)"
  | badProgram => "Exec format error (os error 8)"
  | nulInName => "file name contained an unexpected NUL byte"
  | notText => "stream did not contain valid UTF-8"
  | other text => text

/-- A file system and the directory in which relative paths begin. -/
structure Host where
  root : Node
  workDir : List String
  deriving Repr

namespace Host

def empty (workDir : List String) : Host :=
  ⟨workDir.foldr (fun name inner => .directory [(name, inner)]) (.directory []), workDir⟩

def maxPath : Nat := 4095

def maxName : Nat := 255

/-- The node at a place, which is a list of names from the root. -/
def node? (h : Host) (place : List String) : Option Node := h.root.find? place

/-- Go from a directory to one of its names, which need not exist. -/
def step (h : Host) (place : List String) (name : String) : Except OsError (List String) :=
  match h.node? place with
  | none => .error .notFound
  | some (.file _) => .error .notDirectory
  | some (.directory _) =>
    if name = "." then .ok place
    else if name = ".." then .ok place.dropLast
    else if maxName < name.utf8ByteSize then .error .nameTooLong
    else .ok (place ++ [name])

def follow (h : Host) : List String → List String → Except OsError (List String)
  | place, [] => .ok place
  | place, name :: rest =>
    match h.step place name with
    | .ok place' => follow h place' rest
    | .error e => .error e

def checkPath (path : String) : Except OsError Unit :=
  if path.toList.contains '\x00' then .error .nulInName
  else if path.isEmpty then .error .notFound
  else if maxPath < path.utf8ByteSize then .error .nameTooLong
  else .ok ()

def origin (h : Host) (path : String) : List String :=
  if Text.Path.isAbsolute path then [] else h.workDir

def names (path : String) : List String := (Text.Path.split path).filter (· != "")

def pathOf (place : List String) : String := "/" ++ Text.Path.join place

/-- Does the path insist, by its end, that it leads to a directory? -/
def wantsDirectory (path : String) : Bool :=
  match (Text.Path.split path).getLast? with
  | some last => last == "" || last == "." || last == ".."
  | none => false

/-- The place to which a path leads and the node there, if there is one. -/
def locate (h : Host) (path : String) : Except OsError (List String × Option Node) := do
  checkPath path
  let place ← h.follow (h.origin path) (names path)
  match h.node? place with
  | some (.file content) =>
    if wantsDirectory path then .error .notDirectory else return (place, some (.file content))
  | other => return (place, other)

def stat (h : Host) (path : String) : Except OsError Node := do
  match ← h.locate path with
  | (_, some node) => return node
  | (_, none) => .error .notFound

def pathExists (h : Host) (path : String) : Bool := (h.stat path).toOption.isSome

def isFile (h : Host) (path : String) : Bool := (h.stat path).toOption.any (!·.isDirectory)

def isDirectory (h : Host) (path : String) : Bool := (h.stat path).toOption.any (·.isDirectory)

def read (h : Host) (path : String) : Except OsError Bytes := do
  match ← h.stat path with
  | .file content => return content
  | .directory _ => .error .isDirectory

def write (h : Host) (path : String) (content : Bytes) : Except OsError Host := do
  checkPath path
  let all := names path
  let place ← h.follow (h.origin path) all.dropLast
  match all.getLast? with
  | none => .error .isDirectory
  | some last =>
    let target ← h.step place last
    if wantsDirectory path then .error .isDirectory
    match h.node? target with
    | some (.directory _) => .error .isDirectory
    | _ => return { h with root := Node.set (.file content) h.root target }

def remove (h : Host) (path : String) : Except OsError Host := do
  match ← h.locate path with
  | (_, none) => .error .notFound
  | (_, some (.directory _)) => .error .isDirectory
  | (place, some (.file _)) => return { h with root := h.root.erase place }

def makeAlong (h : Host) : List String → List String → Except OsError Unit × Host
  | _, [] => (.ok (), h)
  | place, name :: rest =>
    match h.step place name with
    | .error e => (.error e, h)
    | .ok place' =>
      match h.node? place' with
      | some (.directory _) => makeAlong h place' rest
      | some (.file _) =>
        (.error (if rest.isEmpty then .exists else .notDirectory), h)
      | none => makeAlong { h with root := Node.set (.directory []) h.root place' } place' rest

/-- Make the directories above a path that ends in a dot; the dot itself names none to be made. -/
def makeAboveDot (h : Host) (path : String) : Except OsError Unit × Host :=
  match h.stat path with
  | .ok _ => (.ok (), h)
  | .error .notFound =>
    match h.makeAlong (h.origin path) ((names path).filter (· != ".")).dropLast with
    | (.ok _, h') => (.error .notFound, h')
    | failed => failed
  | .error e => (.error e, h)

/-- Make a directory and the missing ones above it; directories made before a failure stay. -/
def makeDirs (h : Host) (path : String) : Except OsError Unit × Host :=
  if path.isEmpty then (.ok (), h)
  else
    match checkPath path with
    | .error e => (.error e, h)
    | .ok _ =>
      if (names path).getLast? == some "." then h.makeAboveDot path
      else h.makeAlong (h.origin path) (names path)

def filesBelow (h : Host) (path : String) : List (List String) :=
  match h.stat path with
  | .ok (.directory entries) => Node.filesOf entries
  | _ => []

end Host

end ProofHost
