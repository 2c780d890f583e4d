import ProofHost.Bytes

/-!
Fields of archive records: numbers with the lowest byte first, stretches of bytes, and the marks
with which records begin.
-/

set_option autoImplicit false

namespace ProofHost.Archive

def number? : Nat → Bytes → Option (Nat × Bytes)
  | 0, b => some (0, b)
  | _ + 1, [] => none
  | n + 1, x :: b => (number? n b).map fun (high, rest) => (x.toNat + 256 * high, rest)

def numbers? : List Nat → Bytes → Option (List Nat × Bytes)
  | [], b => some ([], b)
  | width :: widths, b => do
    let (x, b) ← number? width b
    let (xs, b) ← numbers? widths b
    return (x :: xs, b)

def bytes? (n : Nat) (b : Bytes) : Option (Bytes × Bytes) :=
  let front := b.take n
  if front.length = n then some (front, b.drop n) else none

def hasBit (flags bit : Nat) : Bool := flags / Nat.pow 2 bit % 2 == 1

def endMark : Bytes := [0x50, 0x4B, 5, 6]

def wideEndMark : Bytes := [0x50, 0x4B, 6, 6]

def locatorMark : Bytes := [0x50, 0x4B, 6, 7]

def headerMark : Bytes := [0x50, 0x4B, 1, 2]

def localMark : Bytes := [0x50, 0x4B, 3, 4]

def afterMark? (mark b : Bytes) : Option Bytes :=
  if mark.isPrefixOf b then some (b.drop mark.length) else none

def placesOf (mark : Bytes) : Nat → List Nat → Bytes → List Nat
  | _, found, [] => found
  | place, found, b :: rest =>
    placesOf mark (place + 1) (if mark.isPrefixOf (b :: rest) then place :: found else found) rest

end ProofHost.Archive
