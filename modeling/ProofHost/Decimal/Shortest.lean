/-!
The shortest decimal that reads back as a given binary floating-point number.

A finite number is a natural number times a power of two. All real numbers in an interval around
it round to it; the shortest decimal in that interval is found by trying grids of one, two, up to
seventeen digits and testing the two grid points next to the number on each, in exact arithmetic.
-/

set_option autoImplicit false

namespace ProofHost.Decimal

/-- The absolute value of a finite binary number: significand times two to the exponent. -/
structure Binary where
  significand : Nat
  exponent : Int
  /-- The number starts a new power of two, so that its lower neighbour is half as far. -/
  startsOctave : Bool
  deriving DecidableEq, Repr

structure Scaled where
  digits : Nat
  exponent : Int
  deriving DecidableEq, Repr

namespace Binary

/-- The absolute value of the finite double-precision number with the given bit pattern. -/
def ofBits (bits : UInt64) : Binary :=
  let field : Nat := bits.toNat / Nat.pow 2 52 % Nat.pow 2 11
  let fraction : Nat := bits.toNat % Nat.pow 2 52
  if field = 0 then ⟨fraction, -1074, false⟩
  else ⟨fraction + Nat.pow 2 52, (field : Int) - 1075, fraction == 0 && 1 < field⟩

/-- The numerator of a quarter of the number's last place, over the denominator below. -/
def unitNumerator (b : Binary) : Nat := Nat.pow 2 (b.exponent - 2).toNat

/-- The denominator of a quarter of the number's last place. -/
def unitDenominator (b : Binary) : Nat := Nat.pow 2 (2 - b.exponent).toNat

/-- The lower end of the rounding interval, in quarters of the last place. -/
def low (b : Binary) : Nat := 4 * b.significand - (if b.startsOctave then 1 else 2)

/-- The upper end of the rounding interval, in quarters of the last place. -/
def high (b : Binary) : Nat := 4 * b.significand + 2

/--
Does the decimal round to the number? Ends of the interval count when the significand is even,
because a tie goes to the even neighbour.
-/
def accepts (b : Binary) (d : Scaled) : Bool :=
  let point := d.digits * Nat.pow 10 d.exponent.toNat * b.unitDenominator
  let scale := Nat.pow 10 (-d.exponent).toNat * b.unitNumerator
  if b.significand % 2 = 0 then b.low * scale ≤ point && point ≤ b.high * scale
  else b.low * scale < point && point < b.high * scale

/-- The greatest grid point at or below the number, on the grid of a power of ten. -/
def floorOn (b : Binary) (exponent : Int) : Nat :=
  (4 * b.significand * b.unitNumerator * Nat.pow 10 (-exponent).toNat) /
    (b.unitDenominator * Nat.pow 10 exponent.toNat)

def upperNearer (b : Binary) (exponent : Int) (floor : Nat) : Bool :=
  let value := 4 * b.significand * b.unitNumerator * Nat.pow 10 (-exponent).toNat
  let step := b.unitDenominator * Nat.pow 10 exponent.toNat
  (2 * floor + 1) * step < 2 * value ||
    ((2 * floor + 1) * step == 2 * value && floor % 2 == 1)

/-- The grid point next to the number that rounds to it, if either neighbour does. -/
def onGrid (b : Binary) (exponent : Int) : Option Scaled :=
  let floor := b.floorOn exponent
  let lower : Scaled := ⟨floor, exponent⟩
  let upper : Scaled := ⟨floor + 1, exponent⟩
  match b.accepts lower, b.accepts upper with
  | true, true => some (if b.upperNearer exponent floor then upper else lower)
  | true, false => some lower
  | false, true => some upper
  | false, false => none

def digitCount (n : Nat) : Nat := (Nat.toDigits 10 n).length

/-- The smallest power of ten, from a given one on, that lifts the number to one or above. -/
def liftFrom (b : Binary) : Nat → Nat → Nat
  | 0, power => power
  | fuel + 1, power =>
    if b.floorOn (-(power : Int)) = 0 then liftFrom b fuel (power + 1) else power

/-- The decimal exponent of the number's first digit, plus one. -/
def magnitude (b : Binary) : Int :=
  let whole := b.floorOn 0
  if whole = 0 then 1 - (liftFrom b 330 1 : Int) else digitCount whole

def search (b : Binary) (magnitude : Int) : Nat → Nat → Scaled
  | 0, count => ⟨b.floorOn (magnitude - count), magnitude - count⟩
  | fuel + 1, count =>
    match b.onGrid (magnitude - count) with
    | some d => d
    | none => search b magnitude fuel (count + 1)

/-- Move trailing zeros of the digits into the exponent. -/
def normalize : Nat → Scaled → Scaled
  | 0, d => d
  | fuel + 1, d =>
    if d.digits ≠ 0 && d.digits % 10 = 0 then normalize fuel ⟨d.digits / 10, d.exponent + 1⟩
    else d

def shortest (b : Binary) : Scaled :=
  normalize 20 (b.search b.magnitude 17 1)

end Binary

end ProofHost.Decimal
