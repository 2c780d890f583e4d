import ProofHost.Bytes

/-!
The checksum of archives: the remainder of the contents, taken as a polynomial over two elements,
with its bits in reverse.
-/

set_option autoImplicit false

namespace ProofHost.Archive

def polynomial : UInt32 := 0xEDB88320

def shiftBit (crc : UInt32) : UInt32 :=
  if crc &&& 1 = 1 then (crc >>> 1) ^^^ polynomial else crc >>> 1

def addByte (crc : UInt32) (b : UInt8) : UInt32 :=
  shiftBit (shiftBit (shiftBit (shiftBit (shiftBit (shiftBit (shiftBit (shiftBit
    (crc ^^^ b.toUInt32))))))))

def checksum (b : Bytes) : UInt32 := (b.foldl addByte 0xFFFFFFFF) ^^^ 0xFFFFFFFF

end ProofHost.Archive
