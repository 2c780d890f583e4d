import ProofHost.Json.Printer
import ProofHost.Json.Reader

/-!
Strings read back from their quoted text, whatever characters they hold. A control character is
written as an escape of one letter or by its number, and both forms name the character again.
-/

set_option autoImplicit false

namespace ProofHost.Json

variable {ε : Type}

private theorem hexValue_hexDigit : ∀ n, n < 16 → hexValue? (hexDigit n) = some n := by
  decide

private theorem hexUnit_control {n : Nat} (h : n < 32) :
    hexUnit? '0' '0' (hexDigit (n / 16)) (hexDigit (n % 16)) = some n := by
  have zero : hexValue? '0' = some 0 := by decide
  have high := hexValue_hexDigit (n / 16) (by omega)
  have low := hexValue_hexDigit (n % 16) (by omega)
  have whole : 16 * (n / 16) + n % 16 = n := by omega
  simp [hexUnit?, zero, high, low, whole]

private theorem readStringBody_shortEscape {e x : Char} (h : shortEscape? e = some x) (ne : e ≠ 'u')
    (before rest : List Char) :
    readStringBody (ε := ε) before ('\\' :: e :: rest) = readStringBody (x :: before) rest := by
  rw [readStringBody.eq_def]
  simp only [Char.reduceEq, if_false, if_true]
  split
  · rename_i same
    exact absurd (List.cons.inj same).1 ne
  · rename_i same
    obtain ⟨rfl, rfl⟩ := List.cons.inj same
    simp [h]
  · rename_i same
    cases same

private theorem readStringBody_numbered {c : Char} (h : c.toNat < 32) (before rest : List Char) :
    readStringBody (ε := ε) before
        ('\\' :: 'u' :: '0' :: '0' :: hexDigit (c.toNat / 16) :: hexDigit (c.toNat % 16) :: rest) =
      readStringBody (c :: before) rest := by
  have basic : c.toNat < 0xD800 ∨ 0xE000 ≤ c.toNat := Or.inl (by omega)
  rw [readStringBody.eq_def]
  simp [hexUnit_control h, basic]

private theorem readStringBody_plain {c : Char} (quote : c ≠ '"') (slash : c ≠ '\\')
    (h : ¬ c.toNat < 32) (before rest : List Char) :
    readStringBody (ε := ε) before (c :: rest) = readStringBody (c :: before) rest := by
  rw [readStringBody.eq_def]
  simp [quote, slash, h]

def shortlyEscaped : List Char := ['"', '\\', '\x08', '\x0c', '\n', '\r', '\t']

private theorem escape_short {c : Char} (h : c ∈ shortlyEscaped) :
    ∃ e, e ≠ 'u' ∧ shortEscape? e = some c ∧ escape c = ['\\', e] := by
  simp only [shortlyEscaped, List.mem_cons, List.not_mem_nil, or_false] at h
  rcases h with rfl | rfl | rfl | rfl | rfl | rfl | rfl
  · exact ⟨'"', by decide, rfl, rfl⟩
  · exact ⟨'\\', by decide, rfl, rfl⟩
  · exact ⟨'b', by decide, rfl, rfl⟩
  · exact ⟨'f', by decide, rfl, rfl⟩
  · exact ⟨'n', by decide, rfl, rfl⟩
  · exact ⟨'r', by decide, rfl, rfl⟩
  · exact ⟨'t', by decide, rfl, rfl⟩

theorem escape_of_notShort {c : Char} (h : c ∉ shortlyEscaped) :
    escape c =
      if c.toNat < 32 then
        ['\\', 'u', '0', '0', hexDigit (c.toNat / 16), hexDigit (c.toNat % 16)]
      else [c] := by
  simp only [shortlyEscaped, List.mem_cons, List.not_mem_nil, or_false, not_or] at h
  obtain ⟨quote, slash, backspace, formFeed, lineFeed, carriageReturn, tab⟩ := h
  simp only [escape, quote, slash, backspace, formFeed, lineFeed, carriageReturn, tab, if_false]

private theorem readStringBody_escape (c : Char) (before rest : List Char) :
    readStringBody (ε := ε) before (escape c ++ rest) = readStringBody (c :: before) rest := by
  by_cases short : c ∈ shortlyEscaped
  · obtain ⟨e, ne, names, form⟩ := escape_short short
    rw [form]
    exact readStringBody_shortEscape names ne before rest
  · rw [escape_of_notShort short]
    have ne {x : Char} (mem : x ∈ shortlyEscaped) : c ≠ x := fun same => short (same ▸ mem)
    by_cases control : c.toNat < 32
    · rw [if_pos control]
      exact readStringBody_numbered control before rest
    · rw [if_neg control]
      exact readStringBody_plain (ne (by decide)) (ne (by decide)) control before rest

private theorem readStringBody_flatMap (cs before rest : List Char) :
    readStringBody (ε := ε) before (cs.flatMap escape ++ '"' :: rest) =
      .ok (before.reverse ++ cs, rest) := by
  induction cs generalizing before with
  | nil =>
    rw [readStringBody.eq_def]
    simp
  | cons c cs ih =>
    rw [List.flatMap_cons, List.append_assoc, readStringBody_escape, ih]
    simp

theorem readString_body (s : String) (rest : List Char) :
    readString (ε := ε) (s.toList.flatMap escape ++ '"' :: rest) = .ok (s, rest) := by
  simp [readString, readStringBody_flatMap]

end ProofHost.Json
