import ProofHost.Archive.Checksum
import ProofHost.Archive.Field
import ProofHost.Text.CodePage

/-!
Directory headers and their extra fields. An extra field has a kind and a size, and some kinds
change what the header says. A field that breaks off ends the list without harm; a field of a known
kind that breaks the rules of its kind makes the whole header useless.
-/

set_option autoImplicit false

namespace ProofHost.Archive

structure Member where
  name : String
  encrypted : Bool
  method : Nat
  /-- Does an extra field say that the contents are enciphered? -/
  enciphered : Bool
  checksum : UInt32
  packedSize : Nat
  /-- The place of the member's local header. -/
  start : Nat
  deriving DecidableEq, Repr

/-- A directory header in the course of reading its extra fields. -/
structure Header extends Member where
  rawName : Bytes
  /-- The comment in text form. -/
  comment : Bytes
  size : Nat
  deriving DecidableEq, Repr

inductive ExtraEnd where
  /-- The bytes end inside a field; the header stays as it is by then. -/
  | brokenOff (h : Header)
  /-- A field breaks the rules of its kind. -/
  | refused
  deriving DecidableEq, Repr

def readText (isText : Bool) (raw : Bytes) : String :=
  String.ofList (if isText then Bytes.toTextLossy raw else Text.CodePage.decode raw)

namespace Header

def numbers (h : Header) (widths : List Nat) (b : Bytes) :
    Except ExtraEnd (List Nat × Bytes) :=
  match numbers? widths b with
  | some found => .ok found
  | none => .error (.brokenOff h)

/-- The greatest number of a header, which stands for one that an extra field gives. -/
def widened : Nat := 0xFFFFFFFF

/-- The size of a field that gives wide numbers whether they are asked for or not. -/
def fullWideSize : Nat := 24

/-- The numbers of a header that wide numbers can replace: sizes of the contents and start. -/
inductive WideNumber where
  | size
  | packedSize
  | start

def get (h : Header) : WideNumber → Nat
  | .size => h.size
  | .packedSize => h.packedSize
  | .start => h.start

def set (h : Header) (value : Nat) : WideNumber → Header
  | .size => { h with size := value }
  | .packedSize => { h with packedSize := value }
  | .start => { h with start := value }

/--
Take wide numbers in the place of those that ask for it, or of all when the field is full; the
numbers taken must not be more than the field's size allows.
-/
def widen (size : Nat) : List WideNumber → Nat → Header → Bytes → Except ExtraEnd Header
  | [], used, h, _ => if used ≤ size then .ok h else .error .refused
  | which :: rest, used, h, b =>
    if fullWideSize ≤ size ∨ h.get which = widened then
      match number? 8 b with
      | some (value, b') => widen size rest (used + 8) (h.set value which) b'
      | none => .error (.brokenOff h)
    else widen size rest used h b

/-- The three file times have a fixed size, one attribute and its size. -/
def checkFileTimes (size : Nat) (h : Header) (b : Bytes) : Except ExtraEnd Header := do
  if size ≠ 32 then throw .refused
  let (fields, _) ← h.numbers [4, 2] b
  if fields.drop 1 ≠ [1] then throw .refused
  let (fields, _) ← h.numbers [4, 2, 2] b
  if fields.drop 2 ≠ [24] then throw .refused
  return h

/-- The cipher field gives the true packing method; its vendor, version and strength are checked. -/
def applyCipher (size : Nat) (h : Header) (b : Bytes) : Except ExtraEnd Header := do
  if size ≠ 7 then throw .refused
  let (fields, _) ← h.numbers [2, 2, 1, 2] b
  match fields with
  | [version, vendor, strength, method] =>
    if vendor = 0x4541 ∧ 1 ≤ version ∧ version ≤ 2 ∧ 1 ≤ strength ∧ strength ≤ 3 then
      return { h with method := method, enciphered := true }
    else throw .refused
  | _ => throw .refused

/-- The number of bits that are set among the lowest eight. -/
def bitCount (flags : Nat) : Nat := ((List.range 8).filter (hasBit flags)).length

/-- Time stamps have flags for which of three are there; a field with one only may deny it. -/
def checkTimes (size : Nat) (h : Header) (b : Bytes) : Except ExtraEnd Header := do
  let (fields, _) ← h.numbers [1] b
  let flags := fields.headD 0
  if size ≠ 5 ∧ size ≠ 1 + 4 * bitCount flags then throw .refused
  if 8 ≤ flags then throw .refused
  return h

/--
A field that gives another text in text form: it carries the checksum of what it replaces, and what
it gives has to be text.
-/
def restated (size : Nat) (h : Header) (replaced b : Bytes) :
    Except ExtraEnd (Bytes × String) := do
  let (fields, content) ← h.numbers [1, 4] b
  if size < 5 then throw .refused
  match bytes? (size - 5) content with
  | none => throw (.brokenOff h)
  | some (raw, _) =>
    if fields.drop 1 ≠ [(checksum replaced).toNat] then throw .refused
    match Bytes.toText? raw with
    | none => throw .refused
    | some text => return (raw, text)

/-- What an extra field of the given kind and size, which begins with the given bytes, changes. -/
def applyField (kind size : Nat) (h : Header) (b : Bytes) : Except ExtraEnd Header :=
  match kind with
  | 0x0001 => h.widen size [.size, .packedSize, .start] 0 b
  | 0x000A => h.checkFileTimes size b
  | 0x5455 => h.checkTimes size b
  | 0x6375 => (h.restated size h.comment b).map fun (raw, _) => { h with comment := raw }
  | 0x7075 =>
    (h.restated size h.rawName b).map fun (raw, text) => { h with rawName := raw, name := text }
  | 0x9901 => h.applyCipher size b
  | _ => .ok h

def applyExtra (h : Header) : Bytes → Option Header
  | k0 :: k1 :: s0 :: s1 :: b =>
    let kind := k0.toNat + 256 * k1.toNat
    let size := s0.toNat + 256 * s1.toNat
    match h.applyField kind size b with
    | .error .refused => none
    | .error (.brokenOff h') => some h'
    | .ok h' => if b.length < size then some h' else applyExtra h' (b.drop size)
  | _ => some h
termination_by extra => extra.length
decreasing_by
  simp only [List.length_drop, List.length_cons]
  omega

end Header

end ProofHost.Archive
