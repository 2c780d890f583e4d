import ProofHost.Bytes

/-!
The character set of the IBM PC, code page 437, in which archive names without a UTF-8 mark are
written.
-/

set_option autoImplicit false

namespace ProofHost.Text.CodePage

/-- The characters of the upper half, from byte 128 on, sixteen a row. -/
def rows : List String :=
  ["ÇüéâäàåçêëèïîìÄÅ", "ÉæÆôöòûùÿÖÜ¢£¥₧ƒ", "áíóúñÑªº¿⌐¬½¼¡«»", "░▒▓│┤╡╢╖╕╣║╗╝╜╛┐", "└┴┬├─┼╞╟╚╔╩╦╠═╬╧",
    "╨╤╥╙╘╒╓╫╪┘┌█▄▌▐▀", "αßΓπΣσµτΦΘΩδ∞φε∩", "≡±≥≤⌠⌡÷≈°∙·√ⁿ²■\u00A0"]

def upper : Array Char := (rows.flatMap String.toList).toArray

/-- The character of one byte; the lower half is ASCII. -/
def char (b : UInt8) : Char :=
  if b < 128 then Char.ofNat b.toNat else upper.getD (b.toNat - 128) '?'

def decode (b : Bytes) : List Char := b.map char

end ProofHost.Text.CodePage
