import Mathlib.Data.List.Basic
import ProofHost.Bytes

/-!
Bytes as texts and as lines. A text is read back from its bytes; the byte of a line feed stands for
a line feed and for nothing else; and lines that each end with their only line feed are found again
in front of whatever follows them.
-/

set_option autoImplicit false

namespace ProofHost.Bytes

variable {b l : Bytes} {c : Char} {s t : String}

private theorem ofText_eq (s : String) : ofText s = s.toByteArray.data.toList := by
  rw [ofText, String.toUTF8_eq_toByteArray]

@[simp] theorem ofText_append (s t : String) : ofText (s ++ t) = ofText s ++ ofText t := by
  simp [ofText_eq]

theorem ofText_eq_flatMap (s : String) : ofText s = s.toList.flatMap String.utf8EncodeChar := by
  have spelled : s.toByteArray = s.toList.utf8Encode := by
    rw [← String.toByteArray_ofList, String.ofList_toList]
  rw [ofText_eq, spelled, List.utf8Encode]
  simp

theorem toText?_ofText (s : String) : toText? (ofText s) = some s := by
  have same : (⟨(ofText s).toArray⟩ : ByteArray) = s.toByteArray := by
    simp [ofText_eq]
  rw [toText?, same, String.fromUTF8?, dif_pos s.isValidUTF8]
  rfl

private theorem mem_utf8EncodeChar : (10 : UInt8) ∈ String.utf8EncodeChar c ↔ c = '\n' := by
  have byte {n : Nat} (same : (10 : UInt8) = UInt8.ofNat n) : n % 256 = 10 := by
    simpa using congrArg UInt8.toNat same.symm
  constructor
  · intro mem
    have number : c.val.toNat = 10 := by
      rw [String.utf8EncodeChar.eq_1] at mem
      split at mem
      · have same := byte (List.mem_singleton.mp mem)
        omega
      · -- Each byte of a longer form has its highest bit set.
        split_ifs at mem <;> simp only [List.mem_cons, List.not_mem_nil, or_false] at mem
        · rcases mem with same | same <;> have := byte same <;> omega
        · rcases mem with same | same | same <;> have := byte same <;> omega
        · rcases mem with same | same | same | same <;> have := byte same <;> omega
    exact Char.ext (UInt32.toNat_inj.mp number)
  · rintro rfl
    decide

theorem mem_ofText : (10 : UInt8) ∈ ofText s ↔ '\n' ∈ s.toList := by
  rw [ofText_eq_flatMap, List.mem_flatMap]
  constructor
  · rintro ⟨c, mem, feed⟩
    exact mem_utf8EncodeChar.mp feed ▸ mem
  · intro mem
    exact ⟨'\n', mem, mem_utf8EncodeChar.mpr rfl⟩

def Ended (b : Bytes) : Prop := ∃ l : Bytes, 10 ∉ l ∧ b = l ++ [10]

private theorem lines_ended (free : 10 ∉ l) (rest : Bytes) :
    lines (l ++ 10 :: rest) = (l ++ [10]) :: lines rest := by
  induction l with
  | nil => rfl
  | cons x l ih =>
    -- Any byte but a line feed joins the line that begins after it.
    obtain ⟨ne, free⟩ := not_or.mp (List.mem_cons.not.mp free)
    have other : (x == 10) = false := beq_false_of_ne fun same => ne same.symm
    simp only [List.cons_append, lines, other, ih free]
    rfl

theorem lines_flatten_append {ls : List Bytes} (ended : ∀ b ∈ ls, Ended b) (rest : Bytes) :
    lines (ls.flatten ++ rest) = ls ++ lines rest := by
  induction ls with
  | nil => rfl
  | cons b ls ih =>
    obtain ⟨⟨l, free, rfl⟩, later⟩ := List.forall_mem_cons.mp ended
    have next := lines_ended free (ls.flatten ++ rest)
    rw [ih later] at next
    simpa using next

theorem flatten_lines (b : Bytes) : (lines b).flatten = b := by
  induction b with
  | nil => rfl
  | cons x b ih =>
    rw [lines]
    split
    · rename_i feed
      simp [ih, eq_of_beq feed]
    · split
      · rename_i none
        rw [none] at ih
        rw [← ih]
        rfl
      · rename_i line after some
        rw [some] at ih
        rw [← ih]
        rfl

end ProofHost.Bytes
