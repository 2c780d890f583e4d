import ProofHost.Json.Reader

/-!
Passing over a JSON value that nobody asked for. Only the grammar is checked: numbers may have any
size, an escape need not name a character, and containers may nest without limit.
-/

set_option autoImplicit false

namespace ProofHost.Json

variable {ε : Type}

def skipStringBody : List Char → Except (Fault ε) (Unit × List Char)
  | [] => .error .malformed
  | c :: cs =>
    if c = '"' then .ok ((), cs)
    else if c = '\\' then
      match cs with
      | 'u' :: h₁ :: h₂ :: h₃ :: h₄ :: rest =>
        if (hexUnit? h₁ h₂ h₃ h₄).isSome then skipStringBody rest else .error .malformed
      | e :: rest => if (shortEscape? e).isSome then skipStringBody rest else .error .malformed
      | [] => .error .malformed
    else if c.toNat < 32 then .error .malformed
    else skipStringBody cs

/-- A keyword, number or string at the front of a text. -/
def skipScalar : Reader ε Unit := fun cs =>
  match cs with
  | 'n' :: rest => readKeyword ['u', 'l', 'l'] rest
  | 't' :: rest => readKeyword ['r', 'u', 'e'] rest
  | 'f' :: rest => readKeyword ['a', 'l', 's', 'e'] rest
  | '"' :: rest => skipStringBody rest
  | _ =>
    match Numeral.read cs with
    | some (_, rest) => .ok ((), rest)
    | none => .error .malformed

/-- A value at the front of a text; the number bounds the containers inside one another. -/
def skipWithin : Nat → Reader ε Unit
  | depth, cs =>
    match skipSpace cs with
    | '[' :: rest =>
      match depth with
      | 0 => .error .malformed
      | inner + 1 => readItems (fun _ cs => skipWithin inner cs) () rest
    | '\x7b' :: rest =>
      match depth with
      | 0 => .error .malformed
      | inner + 1 =>
        readFields skipStringBody (fun _ _ => afterColon (skipWithin inner) fun _ => ()) () rest
    | rest => skipScalar rest

/-- A value at the front of a text; no value has more containers than the text has characters. -/
def skipValue : Reader ε Unit := fun cs => skipWithin (cs.length + 1) cs

end ProofHost.Json
