import ProofHost.Archive.Field

/-!
End records. An archive ends with an end record, which says where the directory lies and how many
headers it has. Where its numbers are too narrow for that, a locator right before it leads to a
wide end record that says it instead. The stated places do not count bytes before the archive.
-/

set_option autoImplicit false

namespace ProofHost.Archive

structure Layout where
  /-- The distance from stated to true places. -/
  shift : Nat
  /-- The true place of the directory. -/
  place : Nat
  /-- The count of its headers. -/
  count : Nat
  deriving DecidableEq, Repr

structure EndRecord where
  place : Nat
  disk : Nat
  directoryDisk : Nat
  /-- The members on this disk. -/
  present : Nat
  /-- The members on all disks. -/
  total : Nat
  /-- The stated place of the directory. -/
  directoryPlace : Nat
  deriving DecidableEq, Repr

structure Locator where
  place : Nat
  directoryDisk : Nat
  /-- The stated place of the wide end record. -/
  target : Nat
  disks : Nat
  deriving DecidableEq, Repr

structure WideEndRecord extends EndRecord where
  /-- The format version of the archive's writer. -/
  writer : Nat
  /-- The format version that a reader needs. -/
  needed : Nat
  deriving DecidableEq, Repr

def endRecord? (archive : Bytes) (place : Nat) : Option EndRecord := do
  let b ← afterMark? endMark (archive.drop place)
  let (fields, b) ← numbers? [2, 2, 2, 2, 4, 4, 2] b
  match fields with
  | [disk, directoryDisk, present, total, _, directoryPlace, comment] =>
    let _ ← bytes? comment b
    return ⟨place, disk, directoryDisk, present, total, directoryPlace⟩
  | _ => none

def locatorSize : Nat := 20

def locator? (archive : Bytes) (stop : Nat) : Option Locator := do
  if stop < locatorSize then none
  let place := stop - locatorSize
  let b ← afterMark? locatorMark (archive.drop place)
  let (fields, _) ← numbers? [4, 8, 4] b
  match fields with
  | [directoryDisk, target, disks] => return ⟨place, directoryDisk, target, disks⟩
  | _ => none

def headerSize : Nat := 46

def leastWideSize : Nat := 44

/-- The wide end record at a place. It ends where its locator begins, agrees with it, and leaves
room before itself for the headers that it counts. -/
def wideEndRecord? (archive : Bytes) (l : Locator) (place : Nat) : Option WideEndRecord := do
  let b ← afterMark? wideEndMark (archive.drop place)
  let (fields, _) ← numbers? [8, 2, 2, 4, 4, 8, 8, 8, 8] b
  match fields with
  | [size, writer, needed, disk, directoryDisk, present, total, _, directoryPlace] =>
    if leastWideSize ≤ size ∧ place + 12 + size = l.place ∧ directoryDisk = l.directoryDisk ∧
        total * headerSize + directoryPlace ≤ place then
      return ⟨⟨place, disk, directoryDisk, present, total, directoryPlace⟩, writer, needed⟩
    else none
  | _ => none

namespace EndRecord

/-- Are the numbers too narrow for what they should say, as their greatest values tell? -/
def isNarrow (e : EndRecord) : Bool := e.total == 0xFFFF || e.directoryPlace == 0xFFFFFFFF

/--
The distance from stated to true places: the directory begins at the first header at or after its
stated place. An archive without members ends right after its directory.
-/
def shift? (archive : Bytes) (e : EndRecord) : Option Nat :=
  if e.total = 0 then some (e.place - e.directoryPlace)
  else
    let headers := (placesOf headerMark 0 [] archive).reverse
    (headers.find? fun place => e.directoryPlace ≤ place && place < e.place).map
      (· - e.directoryPlace)

/-- The layout that an end record gives; the directory has to lie on the record's own disk. -/
def layout? (archive : Bytes) (e : EndRecord) : Option Layout := do
  let shift ← e.shift? archive
  if e.disk ≠ e.directoryDisk then none
  return ⟨shift, e.directoryPlace + shift, e.present⟩

end EndRecord

def WideEndRecord.layout? (w : WideEndRecord) (shift : Nat) : Option Layout :=
  if w.present ≤ w.total ∧ w.needed ≤ w.writer ∧ w.disk = w.directoryDisk then
    some ⟨shift, w.directoryPlace + shift, w.total⟩
  else none

/-- The layout to which a locator leads, through the first wide end record at or after its stated
place. -/
def Locator.layout? (archive : Bytes) (l : Locator) : Option Layout := do
  if 1 < l.disks then none
  let places := (placesOf wideEndMark 0 [] archive).reverse
  let w ← (places.filter fun place => l.target ≤ place && place < l.place).findSome?
    (wideEndRecord? archive l)
  w.layout? (w.place - l.target)

/-- The layout that the end record at a place gives, by way of a locator if it is too narrow and
there is one. -/
def layout? (archive : Bytes) (place : Nat) : Option Layout := do
  let e ← endRecord? archive place
  match if e.isNarrow then locator? archive place else none with
  | some l => l.layout? archive
  | none => e.layout? archive

end ProofHost.Archive
