import ProofHost.Json.Printer
import ProofHost.Json.Reader

/-!
Numbers read back from their text. The digits of a natural number have no leading zero, and a number
ends where no digit, point or exponent mark follows.
-/

set_option autoImplicit false

namespace ProofHost

namespace Decimal

private theorem digitChar_facts : ∀ d, d < 10 →
    isDigit (digitChar d) = true ∧ digitValue (digitChar d) = d ∧ (digitChar d = '0' → d = 0) := by
  decide

private theorem natDigits_of_lt {n : Nat} (h : n < 10) : natDigits n = [digitChar n] := by
  rw [natDigits, if_pos h]

private theorem natDigits_of_le {n : Nat} (h : 10 ≤ n) :
    natDigits n = natDigits (n / 10) ++ [digitChar (n % 10)] := by
  rw [natDigits, if_neg (by omega)]

theorem natDigits_ne_nil (n : Nat) : natDigits n ≠ [] := by
  by_cases h : n < 10
  · simp [natDigits_of_lt h]
  · simp [natDigits_of_le (Nat.le_of_not_lt h)]

theorem isDigit_of_mem_natDigits (n : Nat) : ∀ c ∈ natDigits n, isDigit c = true := by
  induction n using Nat.strongRecOn with
  | ind n ih =>
    intro c hc
    by_cases h : n < 10
    · rw [natDigits_of_lt h, List.mem_singleton] at hc
      exact hc ▸ (digitChar_facts n h).1
    · rw [natDigits_of_le (by omega), List.mem_append, List.mem_singleton] at hc
      rcases hc with hc | rfl
      · exact ih (n / 10) (by omega) c hc
      · exact (digitChar_facts (n % 10) (by omega)).1

private theorem natDigits_head_zero {n : Nat} {rest : List Char} (h : natDigits n = '0' :: rest) :
    n = 0 ∧ rest = [] := by
  induction n using Nat.strongRecOn generalizing rest with
  | ind n ih =>
    by_cases small : n < 10
    · rw [natDigits_of_lt small] at h
      obtain ⟨first, rfl⟩ := List.cons.inj h
      exact ⟨(digitChar_facts n small).2.2 first, rfl⟩
    · rw [natDigits_of_le (by omega)] at h
      cases front : natDigits (n / 10) with
      | nil => exact absurd front (natDigits_ne_nil _)
      | cons c cs =>
        rw [front, List.cons_append] at h
        obtain ⟨rfl, -⟩ := List.cons.inj h
        have := (ih (n / 10) (by omega) front).1
        omega

end Decimal

namespace Numeral

open Decimal

def Stops (rest : List Char) : Prop :=
  ∀ c ∈ rest.head?, isDigit c = false ∧ c ≠ '.' ∧ c ≠ 'e' ∧ c ≠ 'E'

theorem stops_nil : Stops [] := fun c hc => by cases hc

theorem stops_cons {c : Char} {rest : List Char}
    (h : isDigit c = false ∧ c ≠ '.' ∧ c ≠ 'e' ∧ c ≠ 'E') : Stops (c :: rest) := by
  intro c' hc
  cases hc
  exact h

variable {rest : List Char} {n : Nat}

private theorem spanDigits_natDigits (n : Nat) (stops : Stops rest) :
    spanDigits (natDigits n ++ rest) = (natDigits n, rest) := by
  have ends : ∀ c ∈ rest.head?, isDigit c = false := fun c hc => (stops c hc).1
  have noMore : rest.takeWhile isDigit = [] ∧ rest.dropWhile isDigit = rest := by
    cases rest with
    | nil => exact ⟨rfl, rfl⟩
    | cons c cs => simp [ends c rfl]
  have digits := isDigit_of_mem_natDigits n
  rw [spanDigits, List.takeWhile_append_of_pos digits, List.dropWhile_append_of_pos digits,
    noMore.1, noMore.2, List.append_nil]

private theorem readWhole_natDigits (n : Nat) (stops : Stops rest) :
    readWhole (natDigits n ++ rest) = some (natDigits n, rest) := by
  have span := spanDigits_natDigits n stops
  have digits : readDigits (natDigits n ++ rest) = some (natDigits n, rest) := by
    unfold readDigits
    rw [span]
    split
    · rename_i none
      exact absurd (Prod.mk.inj none).1 (natDigits_ne_nil n)
    · rename_i found
      rw [← found]
  unfold readWhole
  rw [digits]
  split
  · rename_i leading
    have := (natDigits_head_zero (Prod.mk.inj (Option.some.inj leading)).1).2
    cases this
  · rfl

private theorem readFraction_of_stops (stops : Stops rest) :
    readFraction rest = some (none, rest) := by
  unfold readFraction
  split
  · exact absurd rfl (stops '.' rfl).2.1
  · rfl

private theorem readExponent_of_stops (stops : Stops rest) :
    readExponent rest = some (none, rest) := by
  unfold readExponent
  split
  · exact absurd rfl (stops 'e' rfl).2.2.1
  · exact absurd rfl (stops 'E' rfl).2.2.2
  · rfl

private theorem readUnsigned_natDigits (isNegative : Bool) (n : Nat) (stops : Stops rest) :
    readUnsigned isNegative (natDigits n ++ rest) =
      some (⟨isNegative, natDigits n, none, none⟩, rest) := by
  simp [readUnsigned, readWhole_natDigits n stops, readFraction_of_stops stops,
    readExponent_of_stops stops]

private theorem read_natDigits (n : Nat) (stops : Stops rest) :
    read (natDigits n ++ rest) = some (⟨false, natDigits n, none, none⟩, rest) := by
  have unsigned : ∀ tail, natDigits n ++ rest ≠ '-' :: tail := by
    intro tail same
    cases front : natDigits n with
    | nil => exact natDigits_ne_nil n front
    | cons c cs =>
      rw [front, List.cons_append] at same
      obtain ⟨rfl, -⟩ := List.cons.inj same
      have := isDigit_of_mem_natDigits n '-' (by simp [front])
      exact absurd this (by decide)
  unfold read
  split
  · rename_i tail same
    exact absurd same (unsigned tail)
  · exact readUnsigned_natDigits false n stops

private theorem read_negative (n : Nat) (stops : Stops rest) :
    read ('-' :: (natDigits n ++ rest)) = some (⟨true, natDigits n, none, none⟩, rest) :=
  readUnsigned_natDigits true n stops

private theorem accumulate_append {value value' : Nat} {ds : List Char} (more : List Char)
    (h : accumulate value ds = (value', [])) :
    accumulate value (ds ++ more) = accumulate value' more := by
  induction ds generalizing value with
  | nil =>
    cases h
    rfl
  | cons d ds ih =>
    simp only [accumulate] at h
    simp only [List.cons_append, accumulate]
    split
    · rename_i fits
      rw [if_pos fits] at h
      exact ih h
    · rename_i tooLarge
      rw [if_neg tooLarge] at h
      cases h

private theorem accumulate_natDigits (h : n < UInt64.size) :
    accumulate 0 (natDigits n) = (n, []) := by
  induction n using Nat.strongRecOn with
  | ind n ih =>
    by_cases small : n < 10
    · have value := (digitChar_facts n small).2.1
      simp [natDigits_of_lt small, accumulate, value, h]
    · have front := ih (n / 10) (by omega) (by omega)
      have value := (digitChar_facts (n % 10) (by omega)).2.1
      have whole : 10 * (n / 10) + n % 10 = n := by omega
      rw [natDigits_of_le (by omega), accumulate_append _ front]
      simp [accumulate, value, whole, h]

private theorem value_natDigits (isNegative : Bool) (h : n < UInt64.size) :
    value ⟨isNegative, natDigits n, none, none⟩ = some (integer isNegative n) := by
  simp [value, accumulate_natDigits h]

end Numeral

namespace Json

open Numeral

variable {ε : Type} {rest : List Char}

theorem readNumber_natural (n : UInt64) (stops : Stops rest) :
    readNumber (ε := ε) ((Number.natural n).render ++ rest) = .ok (.natural n, rest) := by
  have fits : n.toNat < UInt64.size := n.toNat_lt
  simp [readNumber, Number.render, read_natDigits _ stops, value_natDigits _ fits, integer]

theorem readNumber_negative (below : Fin negativeCount) (stops : Stops rest) :
    readNumber (ε := ε) ((Number.negative below).render ++ rest) = .ok (.negative below, rest) := by
  have bound : below.val < negativeCount := below.isLt
  have fits : below.val + 1 < UInt64.size := by
    unfold negativeCount at bound
    unfold UInt64.size
    omega
  have inRange : 0 < below.val + 1 ∧ below.val + 1 ≤ negativeCount := by omega
  simp [readNumber, Number.render, read_negative _ stops, value_natDigits _ fits, integer, inRange]

end Json

end ProofHost
