import ProofHost.Decimal.Digits
import ProofHost.Decimal.Shortest

/-!
The layout of floating-point numbers: shortest digits, written positionally in the middle of the
range and with an exponent outside it.
-/

set_option autoImplicit false

namespace ProofHost.Decimal

structure Layout where
  /-- The greatest place of the point, counted from the first digit, that is written
  positionally. -/
  lastPlace : Int
  /-- The least such place; it is not positive when zeros follow the point. -/
  firstPlace : Int
  /-- A positive exponent carries a plus sign. -/
  plusSign : Bool

/--
Numbers from a hundred-thousandth up to below ten to the sixteenth are positional, with one digit
after the point at least; other numbers have a signed exponent.
-/
def Layout.data : Layout := ⟨16, -4, true⟩

def Layout.exponent (style : Layout) (e : Int) : List Char :=
  (if e < 0 then ['-'] else if style.plusSign then ['+'] else []) ++ natDigits e.natAbs

def Layout.layOut (style : Layout) (d : Scaled) : List Char :=
  let digits := natDigits d.digits
  let count : Int := digits.length
  let place := count + d.exponent
  if place ≤ style.lastPlace && style.firstPlace ≤ place then
    if 0 ≤ d.exponent then digits ++ List.replicate d.exponent.toNat '0' ++ ['.', '0']
    else if 0 < place then digits.take place.toNat ++ '.' :: digits.drop place.toNat
    else ['0', '.'] ++ List.replicate (-place).toNat '0' ++ digits
  else
    match digits with
    | [] => []
    | first :: rest =>
      first :: (if rest.isEmpty then [] else '.' :: rest) ++ 'e' :: style.exponent (place - 1)

/-- The text of the finite double-precision number with the given bit pattern. -/
def Layout.render (style : Layout) (bits : UInt64) : List Char :=
  let sign := if bits.toNat / Nat.pow 2 63 == 1 then ['-'] else []
  let value := Binary.ofBits bits
  sign ++ (if value.significand = 0 then ['0', '.', '0'] else style.layOut value.shortest)

end ProofHost.Decimal
