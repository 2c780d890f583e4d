/-!
Byte sequences, the contents of files, and their reading as UTF-8 text.
-/

set_option autoImplicit false

namespace ProofHost

abbrev Bytes := List UInt8

namespace Bytes

def ofText (s : String) : Bytes := s.toUTF8.data.toList

def toText? (b : Bytes) : Option String := String.fromUTF8? ⟨b.toArray⟩

def within (low high b : UInt8) : Bool := low ≤ b && b ≤ high

def isTail (b : UInt8) : Bool := within 0x80 0xBF b

def secondOk (first second : UInt8) : Bool :=
  if first == 0xE0 then within 0xA0 0xBF second
  else if first == 0xED then within 0x80 0x9F second
  else if first == 0xF0 then within 0x90 0xBF second
  else if first == 0xF4 then within 0x80 0x8F second
  else isTail second

def tailBits (b : UInt8) : Nat := b.toNat % 64

def replacement : Char := '\uFFFD'

/--
Read bytes as UTF-8 and put one replacement mark for each longest start of a character that breaks
off, and one for each byte that starts none.
-/
def toTextLossy : Bytes → List Char
  | [] => []
  | a :: rest =>
    if a < 0x80 then Char.ofNat a.toNat :: toTextLossy rest
    else if within 0xC2 0xDF a then
      match rest with
      | b :: rest' =>
        if isTail b then Char.ofNat ((a.toNat % 32) * 64 + tailBits b) :: toTextLossy rest'
        else replacement :: toTextLossy (b :: rest')
      | [] => [replacement]
    else if within 0xE0 0xEF a then
      match rest with
      | b :: rest' =>
        if secondOk a b then
          match rest' with
          | c :: rest'' =>
            if isTail c then
              Char.ofNat ((a.toNat % 16) * 4096 + tailBits b * 64 + tailBits c) ::
                toTextLossy rest''
            else replacement :: toTextLossy (c :: rest'')
          | [] => [replacement]
        else replacement :: toTextLossy (b :: rest')
      | [] => [replacement]
    else if within 0xF0 0xF4 a then
      match rest with
      | b :: rest' =>
        if secondOk a b then
          match rest' with
          | c :: rest'' =>
            if isTail c then
              match rest'' with
              | d :: rest''' =>
                if isTail d then
                  Char.ofNat ((a.toNat % 8) * 262144 + tailBits b * 4096 + tailBits c * 64 +
                    tailBits d) :: toTextLossy rest'''
                else replacement :: toTextLossy (d :: rest''')
              | [] => [replacement]
            else replacement :: toTextLossy (c :: rest'')
          | [] => [replacement]
        else replacement :: toTextLossy (b :: rest')
      | [] => [replacement]
    else replacement :: toTextLossy rest

/-- The lines of a sequence, each with the line feed that ends it; the last one may have none. -/
def lines : Bytes → List Bytes
  | [] => []
  | b :: rest =>
    if b == 10 then [b] :: lines rest
    else
      match lines rest with
      | [] => [[b]]
      | line :: after => (b :: line) :: after

def toChars (b : Bytes) : List Char := b.map fun x => Char.ofNat x.toNat

def ofChars (cs : List Char) : Bytes := cs.map fun c => UInt8.ofNat c.toNat

end Bytes

end ProofHost
