/-!
Natural numbers in decimal notation.
-/

set_option autoImplicit false

namespace ProofHost.Decimal

def digitChar (d : Nat) : Char := Char.ofNat (48 + d)

/-- The decimal digits of a natural number, none of them a leading zero unless the number is
zero. -/
def natDigits (n : Nat) : List Char :=
  if n < 10 then [digitChar n] else natDigits (n / 10) ++ [digitChar (n % 10)]

def isDigit (c : Char) : Bool := 48 ≤ c.toNat && c.toNat ≤ 57

def digitValue (c : Char) : Nat := c.toNat - 48

def natOfDigits (cs : List Char) : Nat := cs.foldl (fun n c => 10 * n + digitValue c) 0

end ProofHost.Decimal
