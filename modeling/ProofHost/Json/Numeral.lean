import ProofHost.Decimal.Digits
import ProofHost.Json.Basic

/-!
Reading the numbers of JSON texts: first the numeral, by the grammar alone, then its value.

An integer that fits is exact. Any other numeral becomes a floating-point number: as many digits as
fit 64 bits, scaled by a power of ten that is exact or reached in steps of ten to the 308.
-/

set_option autoImplicit false

namespace ProofHost

structure Numeral where
  isNegative : Bool
  whole : List Char
  /-- The digits after the point, if there is a point. -/
  fraction : Option (List Char)
  /-- Whether the exponent is negative and its digits, if there is an exponent. -/
  exponent : Option (Bool × List Char)
  deriving DecidableEq, Repr

namespace Numeral

def spanDigits (cs : List Char) : List Char × List Char :=
  (cs.takeWhile Decimal.isDigit, cs.dropWhile Decimal.isDigit)

def readDigits (cs : List Char) : Option (List Char × List Char) :=
  match spanDigits cs with
  | ([], _) => none
  | (ds, rest) => some (ds, rest)

/-- The whole part: one digit, or several of which the first is not zero. -/
def readWhole (cs : List Char) : Option (List Char × List Char) :=
  match readDigits cs with
  | some ('0' :: _ :: _, _) => none
  | other => other

def readFraction (cs : List Char) : Option (Option (List Char) × List Char) :=
  match cs with
  | '.' :: rest => (readDigits rest).map fun (ds, rest') => (some ds, rest')
  | _ => some (none, cs)

def readSigned (cs : List Char) : Option (Option (Bool × List Char) × List Char) :=
  match cs with
  | '+' :: rest => (readDigits rest).map fun (ds, rest') => (some (false, ds), rest')
  | '-' :: rest => (readDigits rest).map fun (ds, rest') => (some (true, ds), rest')
  | _ => (readDigits cs).map fun (ds, rest') => (some (false, ds), rest')

def readExponent (cs : List Char) : Option (Option (Bool × List Char) × List Char) :=
  match cs with
  | 'e' :: rest => readSigned rest
  | 'E' :: rest => readSigned rest
  | _ => some (none, cs)

def readUnsigned (isNegative : Bool) (cs : List Char) : Option (Numeral × List Char) := do
  let (whole, rest) ← readWhole cs
  let (fraction, rest') ← readFraction rest
  let (exponent, rest'') ← readExponent rest'
  return (⟨isNegative, whole, fraction, exponent⟩, rest'')

def read (cs : List Char) : Option (Numeral × List Char) :=
  match cs with
  | '-' :: rest => readUnsigned true rest
  | _ => readUnsigned false cs

/-- Take up digits as long as the value fits 64 bits; the digits that are left over follow it. -/
def accumulate (value : Nat) : List Char → Nat × List Char
  | [] => (value, [])
  | d :: ds =>
    let next := 10 * value + Decimal.digitValue d
    if next < UInt64.size then accumulate next ds else (value, d :: ds)

/--
Scale by a power of ten; none when the result is too large. Powers beyond the greatest exact one
are divided out in steps, after which nothing but zero is left.
-/
def scale (value : Float) (exponent : Int) : Nat → Option Float
  | 0 => some value
  | fuel + 1 =>
    if exponent.natAbs ≤ 308 then
      if 0 ≤ exponent then
        let scaled := value * Float.ofScientific 1 false exponent.natAbs
        if scaled.isInf then none else some scaled
      else some (value / Float.ofScientific 1 false exponent.natAbs)
    else if value == 0.0 then some value
    else if 0 ≤ exponent then none
    else scale (value / Float.ofScientific 1 false 308) (exponent + 308) fuel

/-- The floating-point value of up to 64 bits of digits times a power of ten. -/
def scaled (isNegative : Bool) (significand : Nat) (exponent : Int) : Option Number := do
  let value ← scale significand.toUInt64.toFloat exponent 4
  return .real (if isNegative then -value else value).toBits

/-- The value of significant digits with the numeral's exponent applied, if it is in range. -/
def withExponent (n : Numeral) (significand : Nat) (exponent : Int) : Option Number :=
  match n.exponent with
  | none => scaled n.isNegative significand exponent
  | some (isDown, ds) =>
    let e := Decimal.natOfDigits ds
    if 0x80000000 ≤ e then
      if significand ≠ 0 && !isDown then none
      else some (.real (if n.isNegative then -0.0 else 0.0 : Float).toBits)
    else scaled n.isNegative significand (if isDown then exponent - e else exponent + e)

def integer (isNegative : Bool) (value : Nat) : Number :=
  if isNegative then
    if h : 0 < value ∧ value ≤ negativeCount then .negative ⟨value - 1, by omega⟩
    else .real (-value.toUInt64.toFloat).toBits
  else .natural value.toUInt64

/-- The value of a numeral; none when it is too large for a floating-point number. -/
def value (n : Numeral) : Option Number :=
  let (significand, left) := accumulate 0 n.whole
  match n.fraction with
  | some ds =>
    let (significand', left') := accumulate significand ds
    n.withExponent significand' ((left.length : Int) - (ds.length - left'.length : Nat))
  | none =>
    if left.isEmpty && n.exponent.isNone then some (integer n.isNegative significand)
    else n.withExponent significand left.length

end Numeral

end ProofHost
