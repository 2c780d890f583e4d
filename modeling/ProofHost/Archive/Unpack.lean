import ProofHost.Archive.Directory
import ProofHost.Archive.Inflate
import ProofHost.Text.Path

/-!
Taking the files out of an archive. Each member gives a file or the cause for which it gives none;
members that are directories are passed over.
-/

set_option autoImplicit false

namespace ProofHost

inductive ArchiveError where
  | damaged
  | encrypted
  | unknownMethod
  /-- The contents are enciphered, and no password can open them. -/
  | wrongPassword
  /-- The name leads out of the directory into which the archive is unpacked. -/
  | unsafeName (name : String)
  | corrupt (name : String)
  /-- The packed contents break off before their end. -/
  | incomplete (name : String)
  | wrongChecksum (name : String)
  deriving DecidableEq, Repr

def ArchiveError.message : ArchiveError → String
  | damaged => "invalid archive: invalid Zip archive"
  | encrypted => "invalid archive: unsupported Zip archive: Password required to decrypt file"
  | unknownMethod =>
    "invalid archive: unsupported Zip archive: Compression method not supported"
  | wrongPassword => "invalid archive: provided password is incorrect"
  | unsafeName name => "archive entry '" ++ name ++ "' escapes its directory"
  | corrupt name => "failed to read '" ++ name ++ "': corrupt deflate stream"
  | incomplete name => "failed to read '" ++ name ++ "': incomplete deflate stream"
  | wrongChecksum name => "failed to read '" ++ name ++ "': Invalid checksum"

namespace Archive

/-- The data of a member and what follows them; none when there is no local header. -/
def data? (archive : Bytes) (m : Member) : Option Bytes := do
  let b ← afterMark? localMark (archive.drop m.start)
  let (fields, b) ← numbers? [2, 2, 2, 2, 2, 4, 4, 4, 2, 2] b
  match fields with
  | [_, _, _, _, _, _, _, _, nameSize, extraSize] =>
    return (b.drop (nameSize + extraSize)).take m.packedSize
  | _ => none

def isDirectoryName (name : String) : Bool :=
  match name.toList.getLast? with
  | some c => c == '/' || c == '\\'
  | none => false

/-- Do the components of a path never lead above its start, the given number of levels down? -/
def staysBelow : Nat → List String → Bool
  | _, [] => true
  | depth, part :: rest =>
    if part = "" || part = "." then staysBelow depth rest
    else if part = ".." then
      match depth with
      | 0 => false
      | up + 1 => staysBelow up rest
    else staysBelow (depth + 1) rest

/-- Can a file of this name be put below any directory without leading out of it? -/
def isSafeName (name : String) : Bool :=
  !name.toList.contains '\x00' && !Text.Path.isAbsolute name && staysBelow 0 (Text.Path.split name)

def slashed (name : String) : String :=
  String.ofList (name.toList.map fun c => if c = '\\' then '/' else c)

def contents (m : Member) (name : String) (data : Bytes) : Except ArchiveError Bytes :=
  match if m.method = 0 then .ok data else inflate data with
  | .error .malformed => .error (.corrupt name)
  | .error .brokenOff => .error (.incomplete name)
  | .ok body => if checksum body = m.checksum then .ok body else .error (.wrongChecksum name)

/-- The file that a member gives, none for a directory. -/
def extract (archive : Bytes) (m : Member) : Option (Except ArchiveError (String × Bytes)) :=
  if m.encrypted then some (.error .encrypted)
  else
    match data? archive m with
    | none => some (.error .damaged)
    | some data =>
      if m.method ≠ 0 ∧ m.method ≠ 8 then some (.error .unknownMethod)
      else if m.enciphered then some (.error .wrongPassword)
      else if isDirectoryName m.name then none
      else if isSafeName m.name then
        let name := slashed m.name
        some ((contents m name data).map fun body => (name, body))
      else some (.error (.unsafeName m.name))

def unpack (archive : Bytes) :
    Except ArchiveError (List (Except ArchiveError (String × Bytes))) :=
  match members archive with
  | none => .error .damaged
  | some ms => .ok (ms.filterMap (extract archive))

end Archive

end ProofHost
