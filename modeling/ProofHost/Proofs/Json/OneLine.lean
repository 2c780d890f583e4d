import ProofHost.Proofs.Json.RoundTrip
import ProofHost.Proofs.Text.Path
import ProofHost.Wire.Tagged

/-!
The text of a value is one line, whatever strings the value holds: control characters are escaped,
and the printer writes none of its own. So texts of values that are put on lines of their own are
found as the lines of the whole.
-/

set_option autoImplicit false

namespace ProofHost

namespace Json

variable {cs cs' : List Char}

def Printed (cs : List Char) : Prop := ∀ c ∈ cs, 32 ≤ c.toNat

private theorem printed_nil : Printed [] := List.forall_mem_nil _

@[simp] theorem printed_cons {c : Char} : Printed (c :: cs) ↔ 32 ≤ c.toNat ∧ Printed cs :=
  List.forall_mem_cons

@[simp] theorem printed_append : Printed (cs ++ cs') ↔ Printed cs ∧ Printed cs' :=
  List.forall_mem_append

private theorem Printed.noLineFeed (h : Printed cs) : '\n' ∉ cs := by
  intro mem
  have above := h _ mem
  revert above
  decide

private theorem hexDigit_printed : ∀ n, n < 16 → 32 ≤ (hexDigit n).toNat := by
  decide

private theorem printed_shortlyEscaped :
    (shortlyEscaped.all fun c => (escape c).all fun x => 32 ≤ x.toNat) = true := by
  decide

private theorem printed_escape (c : Char) : Printed (escape c) := by
  by_cases short : c ∈ shortlyEscaped
  · have all := List.all_eq_true.mp printed_shortlyEscaped c short
    intro x mem
    simpa using List.all_eq_true.mp all x mem
  · rw [escape_of_notShort short]
    split
    · rename_i control
      have high := hexDigit_printed (c.toNat / 16) (by omega)
      have low := hexDigit_printed (c.toNat % 16) (by omega)
      simp [printed_nil, high, low]
    · rename_i plain
      exact List.forall_mem_singleton.mpr (Nat.le_of_not_lt plain)

private theorem printed_renderString (s : String) : Printed (renderString s) := by
  have body : Printed (s.toList.flatMap escape) := by
    intro c mem
    obtain ⟨d, -, mem⟩ := List.mem_flatMap.mp mem
    exact printed_escape d c mem
  simp [renderString, body, printed_nil]

private theorem printed_natDigits (n : Nat) : Printed (Decimal.natDigits n) := by
  intro c mem
  have digit := Decimal.isDigit_of_mem_natDigits n c mem
  simp only [Decimal.isDigit, Bool.and_eq_true, decide_eq_true_eq] at digit
  omega

private theorem printed_exponent (style : Decimal.Layout) (e : Int) :
    Printed (style.exponent e) := by
  have sign : Printed (if e < 0 then ['-'] else if style.plusSign then ['+'] else []) := by
    split
    · simp [printed_nil]
    · split <;> simp [printed_nil]
  exact printed_append.mpr ⟨sign, printed_natDigits _⟩

private theorem printed_layOut (style : Decimal.Layout) (d : Decimal.Scaled) :
    Printed (style.layOut d) := by
  have digits := printed_natDigits d.digits
  have zeros (n : Nat) : Printed (List.replicate n '0') := by
    intro c mem
    rw [(List.mem_replicate.mp mem).2]
    decide
  have part {cs : List Char} (within : cs ⊆ Decimal.natDigits d.digits) : Printed cs :=
    fun c mem => digits c (within mem)
  simp only [Decimal.Layout.layOut]
  generalize Decimal.natDigits d.digits = ds at digits part ⊢
  split
  · split
    · simp [digits, zeros, printed_nil]
    · split
      · simp [part (List.take_subset _ _), part (List.drop_subset _ _)]
      · simp [digits, zeros]
  · cases ds with
    | nil => exact printed_nil
    | cons first rest =>
      obtain ⟨printedFirst, printedRest⟩ := printed_cons.mp digits
      have exponent := printed_exponent style
      by_cases empty : rest.isEmpty <;> simp [empty, printedFirst, printedRest, exponent]

private theorem printed_number (n : Number) : Printed n.render := by
  cases n with
  | natural n => exact printed_natDigits n.toNat
  | negative below => simp [Number.render, printed_natDigits]
  | real bits =>
    have value : Printed (if (Decimal.Binary.ofBits bits).significand = 0 then ['0', '.', '0'] else
        Decimal.Layout.data.layOut (Decimal.Binary.ofBits bits).shortest) := by
      split
      · simp [printed_nil]
      · exact printed_layOut _ _
    simp only [Number.render, Decimal.Layout.render, printed_append]
    refine ⟨?_, value⟩
    split <;> simp [printed_nil]

mutual

private theorem printed_renderChars : ∀ v : Json, Printed (renderChars v)
  | .null => by simp [renderChars, printed_nil]
  | .bool true => by simp [renderChars, printed_nil]
  | .bool false => by simp [renderChars, printed_nil]
  | .number n => by simpa [renderChars_number] using printed_number n
  | .string s => by simpa [renderChars_string] using printed_renderString s
  | .array [] => by simp [renderChars, printed_nil]
  | .array (v :: items) => by
    simp [renderChars, printed_renderChars v, printed_renderItems items]
  | .object [] => by simp [renderChars, printed_nil]
  | .object ((name, v) :: fields) => by
    simp [renderChars, printed_renderString, printed_renderChars v, printed_renderFields fields]

theorem printed_renderItems : ∀ items : List Json, Printed (renderItems items)
  | [] => by simp [renderItems, printed_nil]
  | v :: items => by simp [renderItems, printed_renderChars v, printed_renderItems items]

theorem printed_renderFields : ∀ fields : List (String × Json), Printed (renderFields fields)
  | [] => by simp [renderFields, printed_nil]
  | (name, v) :: fields => by
    simp [renderFields, printed_renderString, printed_renderChars v, printed_renderFields fields]

end

theorem noLineFeed_render (v : Json) : '\n' ∉ v.render.toList := by
  rw [render, String.toList_ofList]
  exact (printed_renderChars v).noLineFeed

private theorem renderItems_ends (items : List Json) :
    ∃ front, renderItems items = front ++ [']'] := by
  induction items with
  | nil => exact ⟨[], by simp [renderItems]⟩
  | cons v items ih =>
    obtain ⟨front, ends⟩ := ih
    exact ⟨',' :: (renderChars v ++ front), by simp [renderItems, ends]⟩

private theorem render_tagged (t : Tagged) :
    ∃ inner, t.toJson.render.toList = '[' :: inner ++ [']'] := by
  obtain ⟨front, ends⟩ := renderItems_ends t.fields
  exact ⟨renderChars (.string t.tag) ++ front, by simp [Tagged.toJson, render, renderChars, ends]⟩

end Json

namespace Text

variable {line : List Char}

/-- A text that stays one line: it has no line feed, and brackets stand around it. -/
structure Bracketed (line : List Char) : Prop where
  noLineFeed : '\n' ∉ line
  brackets : ∃ inner, line = '[' :: inner ++ [']']

theorem bracketed_tagged (t : Tagged) : Bracketed t.toJson.render.toList where
  noLineFeed := Json.noLineFeed_render t.toJson
  brackets := Json.render_tagged t

namespace Bracketed

private theorem dropReturn (h : Bracketed line) : dropReturn line = line := by
  obtain ⟨inner, rfl⟩ := h.brackets
  simp [Text.dropReturn]

theorem trim (h : Bracketed line) : trim (line ++ ['\n']) = line := by
  obtain ⟨inner, rfl⟩ := h.brackets
  have opening : isBlank '[' = false := by decide
  have closing : isBlank ']' = false := by decide
  have feed : isBlank '\n' = true := by decide
  simp [Text.trim, trimStart, trimEnd, dropEndWhile, opening, closing, feed]

theorem ne_nil (h : Bracketed line) : line ≠ [] := by
  obtain ⟨inner, rfl⟩ := h.brackets
  exact List.cons_ne_nil _ _

end Bracketed

theorem lines_flatMap {ls : List (List Char)} (bracketed : ∀ line ∈ ls, Bracketed line) :
    lines (ls.flatMap (· ++ ['\n'])) = ls := by
  have kept : ∀ line ∈ ls, Text.dropReturn line = id line :=
    fun line mem => (bracketed line mem).dropReturn
  rw [lines_flatMap_eq_map fun line mem => (bracketed line mem).noLineFeed,
    List.map_congr_left kept, List.map_id]

end Text

end ProofHost
