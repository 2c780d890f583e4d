import ProofHost.Archive.EndRecord
import ProofHost.Archive.Header

/-!
The directory of an archive: one header for each member. The last end record that leads to a sound
directory counts.
-/

set_option autoImplicit false

namespace ProofHost.Archive

/-- The packing method of members whose true method a cipher field has to give. -/
def cipherMethod : Nat := 99

def header? (b : Bytes) : Option (Header × Bytes) := do
  let b ← afterMark? headerMark b
  let (fields, b) ← numbers? [2, 2, 2, 2, 2, 2, 4, 4, 4, 2, 2, 2, 2, 2, 4, 4] b
  match fields with
  | [_, _, flags, method, _, _, crc, packedSize, size, nameSize, extraSize, commentSize, _, _, _,
      start] =>
    let (raw, b) ← bytes? nameSize b
    let (extra, b) ← bytes? extraSize b
    let (comment, b) ← bytes? commentSize b
    let isText := hasBit flags 11
    let plain : Header :=
      { name := readText isText raw
        encrypted := hasBit flags 0
        method := method
        enciphered := false
        checksum := UInt32.ofNat crc
        packedSize := packedSize
        start := start
        rawName := raw
        comment := Bytes.ofText (readText isText comment)
        size := size }
    return (← plain.applyExtra extra, b)
  | _ => none

def member? (layout : Layout) (h : Header) : Option Member :=
  let start := h.start + layout.shift
  if h.method = cipherMethod ∧ h.enciphered = false then none
  else if layout.place ≤ start then none
  else some { h.toMember with start := start }

def describe? (layout : Layout) : Nat → Bytes → Option (List Member)
  | 0, _ => some []
  | n + 1, b => do
    let (h, b) ← header? b
    let m ← member? layout h
    let ms ← describe? layout n b
    return m :: ms

/-- The members to which the end record at a place leads. -/
def directory? (archive : Bytes) (place : Nat) : Option (List Member) := do
  let layout ← layout? archive place
  describe? layout layout.count (archive.drop layout.place)

/-- Put a member into a list; a member of the same name is replaced in its place. -/
def record (m : Member) : List Member → List Member
  | [] => [m]
  | other :: rest => if m.name = other.name then m :: rest else other :: record m rest

/-- The members of an archive, each name once: the last end record that leads to a directory
counts. -/
def members (archive : Bytes) : Option (List Member) :=
  ((placesOf endMark 0 [] archive).findSome? (directory? archive)).map
    fun ms => ms.foldl (fun kept m => record m kept) []

end ProofHost.Archive
