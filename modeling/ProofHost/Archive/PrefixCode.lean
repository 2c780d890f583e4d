import ProofHost.Bytes

/-!
Streams of bits and canonical prefix codes over them. In a canonical code the words of one length
are consecutive numbers, given to the symbols in ascending order, and shorter words come first.
Reading tells a stream that ends too early from one that breaks a rule.
-/

set_option autoImplicit false

namespace ProofHost.Archive

inductive PackError where
  /-- The stream ends before its final block does. -/
  | brokenOff
  /-- The stream breaks a rule of the format. -/
  | malformed
  deriving DecidableEq, Repr

/-- The unread bits of a stream: its bytes, and how many bits of the first are taken. -/
structure Bits where
  bytes : Bytes
  taken : Nat

namespace Bits

def next (s : Bits) : Except PackError (Nat × Bits) :=
  match s.bytes with
  | [] => .error .brokenOff
  | b :: rest =>
    .ok (b.toNat / Nat.pow 2 s.taken % 2, if s.taken = 7 then ⟨rest, 0⟩ else ⟨s.bytes, s.taken + 1⟩)

def number : Nat → Bits → Except PackError (Nat × Bits)
  | 0, s => .ok (0, s)
  | n + 1, s =>
    match s.next with
    | .error e => .error e
    | .ok (bit, s') => (number n s').map fun (high, s'') => (bit + 2 * high, s'')

def dropPartial (s : Bits) : Bits := if s.taken = 0 then s else ⟨s.bytes.tail, 0⟩

def half (s : Bits) : Except PackError (Nat × Bits) := number 16 s

end Bits

/-- A prefix code: for each length of words, from one up, the symbols of that length in order. -/
structure PrefixCode where
  ranks : List (Array Nat)

namespace PrefixCode

def maxLength : Nat := 15

/-- The symbols whose words have a given length. -/
def rank (lengths : List Nat) (length : Nat) : Array Nat :=
  ((lengths.zipIdx.filter fun p => p.1 == length).map Prod.snd).toArray

/-- The code in which the symbols from zero up have words of the given lengths, zero for none. -/
def ofLengths (lengths : List Nat) : PrefixCode :=
  ⟨(List.range maxLength).map fun n => rank lengths (n + 1)⟩

/-- The share of all words of the greatest length that begin with a word of the code. -/
def weight : List (Array Nat) → Nat
  | [] => 0
  | symbols :: longer => symbols.size * Nat.pow 2 longer.length + weight longer

/-- Does every long enough sequence of bits begin with exactly one word? -/
def isComplete (c : PrefixCode) : Bool := weight c.ranks == Nat.pow 2 c.ranks.length

def areUnused (ranks : List (Array Nat)) : Bool := ranks.all Array.isEmpty

def isMinimal (c : PrefixCode) : Bool :=
  match c.ranks with
  | [] => true
  | shortest :: longer => decide (shortest.size ≤ 1) && areUnused longer

/-- Can the code be used for symbols? A code that is not complete is of use only for at most one
symbol, whose word has a single bit. -/
def isUsable (c : PrefixCode) : Bool := c.isComplete || c.isMinimal

/--
Read bits until they are a word, or until no longer word is left. The offset is the distance of the
bits read so far, as a number, from the first word of their length.
-/
def walk : List (Array Nat) → Nat → Bits → Except PackError (Nat × Bits)
  | [], _, _ => .error .malformed
  | symbols :: longer, offset, s =>
    match s.next with
    | .error e => .error e
    | .ok (bit, s') =>
      match symbols[2 * offset + bit]? with
      | some symbol => .ok (symbol, s')
      | none =>
        if areUnused longer then .error .malformed
        else walk longer (2 * offset + bit - symbols.size) s'

def decode (c : PrefixCode) (s : Bits) : Except PackError (Nat × Bits) := walk c.ranks 0 s

end PrefixCode

end ProofHost.Archive
