import ProofHost.Archive.PrefixCode

/-!
Packed contents of archive members. A packed stream is a sequence of blocks; a block holds bytes as
they are, or literal bytes and references back to earlier output in a prefix code, which is fixed or
described at the front of the block.
-/

set_option autoImplicit false

namespace ProofHost.Archive

/-- The lengths that the length symbols stand for: a base and a count of further bits. -/
def lengthTable : Array (Nat × Nat) := #[
  (3, 0), (4, 0), (5, 0), (6, 0), (7, 0), (8, 0), (9, 0), (10, 0), (11, 1), (13, 1), (15, 1),
  (17, 1), (19, 2), (23, 2), (27, 2), (31, 2), (35, 3), (43, 3), (51, 3), (59, 3), (67, 4),
  (83, 4), (99, 4), (115, 4), (131, 5), (163, 5), (195, 5), (227, 5), (258, 0)]

/-- The distances that the distance symbols stand for: a base and a count of further bits. -/
def distanceTable : Array (Nat × Nat) := #[
  (1, 0), (2, 0), (3, 0), (4, 0), (5, 1), (7, 1), (9, 2), (13, 2), (17, 3), (25, 3), (33, 4),
  (49, 4), (65, 5), (97, 5), (129, 6), (193, 6), (257, 7), (385, 7), (513, 8), (769, 8),
  (1025, 9), (1537, 9), (2049, 10), (3073, 10), (4097, 11), (6145, 11), (8193, 12), (12289, 12),
  (16385, 13), (24577, 13)]

def lengthOrder : List Nat := [16, 17, 18, 0, 8, 7, 9, 6, 10, 5, 11, 4, 12, 3, 13, 2, 14, 1, 15]

/-- The value of a table's row: its base and the further bits of the stream. -/
def tableValue (table : Array (Nat × Nat)) (row : Nat) (s : Bits) :
    Except PackError (Nat × Bits) :=
  match table[row]? with
  | none => .error .malformed
  | some (base, extra) => (s.number extra).map fun (more, s') => (base + more, s')

/-- Repeat output from a distance back; before the first byte all bytes are zero. -/
def copyBack (distance : Nat) : Nat → Array UInt8 → Array UInt8
  | 0, out => out
  | n + 1, out =>
    let b := if distance ≤ out.size then (out[out.size - distance]?).getD 0 else 0
    copyBack distance n (out.push b)

/-- The symbols of a block up to the one that ends it; the first number bounds their count. -/
def readSymbols (literals distances : PrefixCode) :
    Nat → Bits → Array UInt8 → Except PackError (Array UInt8 × Bits)
  | 0, _, _ => .error .brokenOff
  | fuel + 1, s, out =>
    match literals.decode s with
    | .error e => .error e
    | .ok (symbol, s) =>
      if symbol < 256 then readSymbols literals distances fuel s (out.push (UInt8.ofNat symbol))
      else if symbol = 256 then .ok (out, s)
      else
        match tableValue lengthTable (symbol - 257) s with
        | .error e => .error e
        | .ok (length, s) =>
          match distances.decode s with
          | .error e => .error e
          | .ok (row, s) =>
            match tableValue distanceTable row s with
            | .error e => .error e
            | .ok (distance, s) =>
              readSymbols literals distances fuel s (copyBack distance length out)

/-- A block of bytes as they are: their count, the complement of it, and the bytes. -/
def readStored (s : Bits) (out : Array UInt8) : Except PackError (Array UInt8 × Bits) := do
  let (count, s) ← s.dropPartial.half
  let (complement, s) ← s.half
  if count + complement ≠ 65535 then throw .malformed
  let body := s.bytes.take count
  if body.length ≠ count then throw .brokenOff
  return (out ++ body.toArray, ⟨s.bytes.drop count, 0⟩)

def fixedLiterals : PrefixCode :=
  .ofLengths (List.replicate 144 8 ++ List.replicate 112 9 ++ List.replicate 24 7 ++
    List.replicate 8 8)

def fixedDistances : PrefixCode := .ofLengths (List.replicate 32 5)

/-- The given count of numbers of three bits. -/
def readTriples : Nat → Bits → Except PackError (List Nat × Bits)
  | 0, s => .ok ([], s)
  | n + 1, s => do
    let (x, s) ← s.number 3
    let (xs, s) ← readTriples n s
    return (x :: xs, s)

/--
Word lengths, the last one first, until there are as many as wanted: each given as it is, or by a
count of repetitions of the one before or of zero. More than wanted are refused.
-/
def readLengths (c : PrefixCode) (wanted : Nat) :
    Nat → Bits → List Nat → Except PackError (List Nat × Bits)
  | 0, _, _ => .error .malformed
  | fuel + 1, s, lengths =>
    if lengths.length = wanted then .ok (lengths, s)
    else if wanted < lengths.length then .error .malformed
    else do
      let (symbol, s) ← c.decode s
      if symbol < 16 then readLengths c wanted fuel s (symbol :: lengths)
      else if symbol = 16 then
        match lengths with
        | [] => throw .malformed
        | last :: _ =>
          let (more, s) ← s.number 2
          readLengths c wanted fuel s (List.replicate (3 + more) last ++ lengths)
      else if symbol = 17 then
        let (more, s) ← s.number 3
        readLengths c wanted fuel s (List.replicate (3 + more) 0 ++ lengths)
      else
        let (more, s) ← s.number 7
        readLengths c wanted fuel s (List.replicate (11 + more) 0 ++ lengths)

def readCodes (s : Bits) : Except PackError ((PrefixCode × PrefixCode) × Bits) := do
  let (literals, s) ← s.number 5
  let (distances, s) ← s.number 5
  let (given, s) ← s.number 4
  if 286 < literals + 257 ∨ 30 < distances + 1 then throw .malformed
  let (triples, s) ← readTriples (given + 4) s
  let lengthCode := PrefixCode.ofLengths ((List.range 19).map fun symbol =>
    ((lengthOrder.zip triples).lookup symbol).getD 0)
  if !lengthCode.isComplete then throw .malformed
  let wanted := literals + 257 + (distances + 1)
  let (reversed, s) ← readLengths lengthCode wanted (wanted + 1) s []
  let lengths := reversed.reverse
  let literalCode := PrefixCode.ofLengths (lengths.take (literals + 257))
  let distanceCode := PrefixCode.ofLengths (lengths.drop (literals + 257))
  if !literalCode.isUsable || !distanceCode.isUsable then throw .malformed
  return ((literalCode, distanceCode), s)

/-- The blocks up to and with the final one; the number bounds them and the symbols in each. -/
def readBlocks (limit : Nat) : Nat → Bits → Array UInt8 → Except PackError (Array UInt8)
  | 0, _, _ => .error .brokenOff
  | fuel + 1, s, out => do
    let (final, s) ← s.number 1
    let (kind, s) ← s.number 2
    let (out, s) ←
      match kind with
      | 0 => readStored s out
      | 1 => readSymbols fixedLiterals fixedDistances limit s out
      | 2 => do
        let ((literals, distances), s) ← readCodes s
        readSymbols literals distances limit s out
      | _ => throw .malformed
    if final = 1 then return out
    readBlocks limit fuel s out

/--
The contents of a packed stream; what follows its final block does not count. A block and a symbol
take at least one bit each, which bounds them.
-/
def inflate (packed : Bytes) : Except PackError Bytes :=
  let limit := 8 * packed.length + 1
  (readBlocks limit limit ⟨packed, 0⟩ #[]).map Array.toList

end ProofHost.Archive
