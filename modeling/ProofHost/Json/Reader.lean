import ProofHost.Json.Numeral
import ProofHost.Text.Blank

/-!
Reading JSON texts. A reader takes what it needs from the front of a text and returns the rest. It
fails because the text is malformed, or because what the text says is rejected for a cause of its
own; the two are kept apart, since a text is read from left to right and the first failure counts.
-/

set_option autoImplicit false

namespace ProofHost

inductive Fault (ε : Type) where
  /-- The text is no JSON. -/
  | malformed
  /-- The text is JSON so far, but what it says is not acceptable. -/
  | rejected (cause : ε)
  deriving DecidableEq, Repr

abbrev Reader (ε α : Type) := List Char → Except (Fault ε) (α × List Char)

namespace Json

/-- The blanks of JSON: space, tab, line feed and carriage return. -/
def isSpace (c : Char) : Bool := c = ' ' || c = '\n' || c = '\r' || c = '\t'

def skipSpace (cs : List Char) : List Char := cs.dropWhile isSpace

/-- The greatest number of containers inside one another. -/
def maxDepth : Nat := 127

section Scalars

variable {ε : Type}

def readKeyword (letters : List Char) : Reader ε Unit := fun cs =>
  match Text.dropLeading? letters cs with
  | some rest => .ok ((), rest)
  | none => .error .malformed

def hexValue? (c : Char) : Option Nat :=
  let n := c.toNat
  if 48 ≤ n ∧ n ≤ 57 then some (n - 48)
  else if 97 ≤ n ∧ n ≤ 102 then some (n - 87)
  else if 65 ≤ n ∧ n ≤ 70 then some (n - 55)
  else none

def hexUnit? (a b c d : Char) : Option Nat := do
  return 4096 * (← hexValue? a) + 256 * (← hexValue? b) + 16 * (← hexValue? c) + (← hexValue? d)

def shortEscape? (c : Char) : Option Char :=
  match c with
  | '"' => some '"'
  | '\\' => some '\\'
  | '/' => some '/'
  | 'b' => some '\x08'
  | 'f' => some '\x0c'
  | 'n' => some '\n'
  | 'r' => some '\r'
  | 't' => some '\t'
  | _ => none

/--
The rest of a string after its opening quote, before which the given characters were read, last
one first. A character beyond the basic plane takes two escapes; half a pair is malformed.
-/
def readStringBody (before : List Char) : List Char → Except (Fault ε) (List Char × List Char)
  | [] => .error .malformed
  | c :: cs =>
    if c = '"' then .ok (before.reverse, cs)
    else if c = '\\' then
      match cs with
      | 'u' :: h₁ :: h₂ :: h₃ :: h₄ :: rest =>
        match hexUnit? h₁ h₂ h₃ h₄ with
        | none => .error .malformed
        | some unit =>
          if unit < 0xD800 ∨ 0xE000 ≤ unit then readStringBody (Char.ofNat unit :: before) rest
          else if 0xDC00 ≤ unit then .error .malformed
          else
            match rest with
            | '\\' :: 'u' :: l₁ :: l₂ :: l₃ :: l₄ :: rest' =>
              match hexUnit? l₁ l₂ l₃ l₄ with
              | none => .error .malformed
              | some low =>
                if 0xDC00 ≤ low ∧ low < 0xE000 then
                  readStringBody
                    (Char.ofNat (0x10000 + 1024 * (unit - 0xD800) + (low - 0xDC00)) :: before)
                    rest'
                else .error .malformed
            | _ => .error .malformed
      | e :: rest =>
        match shortEscape? e with
        | some x => readStringBody (x :: before) rest
        | none => .error .malformed
      | [] => .error .malformed
    else if c.toNat < 32 then .error .malformed
    else readStringBody (c :: before) cs

def readString : Reader ε String := fun cs =>
  match readStringBody [] cs with
  | .ok (body, rest) => .ok (String.ofList body, rest)
  | .error e => .error e

def readNumber : Reader ε Number := fun cs =>
  match Numeral.read cs with
  | none => .error .malformed
  | some (n, rest) =>
    match n.value with
    | none => .error .malformed
    | some v => .ok (v, rest)

/-- A keyword, number or string at the front of a text. -/
def readScalar : Reader ε Json := fun cs =>
  match cs with
  | [] => .error .malformed
  | c :: rest =>
    if c = 'n' then (readKeyword ['u', 'l', 'l'] rest).map fun (_, r) => (.null, r)
    else if c = 't' then (readKeyword ['r', 'u', 'e'] rest).map fun (_, r) => (.bool true, r)
    else if c = 'f' then (readKeyword ['a', 'l', 's', 'e'] rest).map fun (_, r) => (.bool false, r)
    else if c = '"' then (readString rest).map fun (s, r) => (.string s, r)
    else (readNumber cs).map fun (n, r) => (.number n, r)

end Scalars

section Containers

variable {ε α ν σ : Type}

/--
The items of an array after the first, up to and with its closing bracket, each taken up by the
given step into a state.
-/
def readMoreItems (step : σ → Reader ε σ) : Nat → σ → Reader ε σ
  | 0, _, _ => .error .malformed
  | fuel + 1, state, cs =>
    match skipSpace cs with
    | ']' :: rest => .ok (state, rest)
    | ',' :: rest =>
      match skipSpace rest with
      | ']' :: _ => .error .malformed
      | rest' =>
        match step state rest' with
        | .ok (state', rest'') => readMoreItems step fuel state' rest''
        | .error e => .error e
    | _ => .error .malformed

def readItems (step : σ → Reader ε σ) (state : σ) : Reader ε σ := fun cs =>
  match skipSpace cs with
  | ']' :: rest => .ok (state, rest)
  | rest =>
    match step state rest with
    | .ok (state', rest') => readMoreItems step (rest'.length + 1) state' rest'
    | .error e => .error e

/-- A field's name, given a reader of what follows the opening quote. -/
def readName (body : Reader ε ν) : Reader ε ν := fun cs =>
  match cs with
  | '"' :: rest => body rest
  | _ => .error .malformed

def readColon : Reader ε Unit := fun cs =>
  match skipSpace cs with
  | ':' :: rest => .ok ((), skipSpace rest)
  | _ => .error .malformed

/-- One field: its name, and then what the given step makes of the rest. -/
def readField (body : Reader ε ν) (step : σ → ν → Reader ε σ) (state : σ) : Reader ε σ := fun cs =>
  match readName body cs with
  | .ok (name, rest) => step state name rest
  | .error e => .error e

def readMoreFields (body : Reader ε ν) (step : σ → ν → Reader ε σ) : Nat → σ → Reader ε σ
  | 0, _, _ => .error .malformed
  | fuel + 1, state, cs =>
    match skipSpace cs with
    | '\x7d' :: rest => .ok (state, rest)
    | ',' :: rest =>
      match readField body step state (skipSpace rest) with
      | .ok (state', rest') => readMoreFields body step fuel state' rest'
      | .error e => .error e
    | _ => .error .malformed

/-- The fields of an object after its opening brace; a step reads the colon and the value. -/
def readFields (body : Reader ε ν) (step : σ → ν → Reader ε σ) (state : σ) : Reader ε σ := fun cs =>
  match skipSpace cs with
  | '\x7d' :: rest => .ok (state, rest)
  | rest =>
    match readField body step state rest with
    | .ok (state', rest') => readMoreFields body step (rest'.length + 1) state' rest'
    | .error e => .error e

/-- After a name: the colon and the value, with the state changed by what was read. -/
def afterColon (item : Reader ε α) (add : α → σ) : Reader ε σ := fun cs =>
  match readColon cs with
  | .ok (_, rest) => (item rest).map fun (a, rest') => (add a, rest')
  | .error e => .error e

end Containers

section Values

variable {ε : Type}

/--
A value at the front of a text, blanks before it dropped, with no more than the given number of
containers inside one another.
-/
def readValue (depth : Nat) : Reader ε Json := fun cs =>
  match skipSpace cs with
  | '[' :: rest =>
    match depth with
    | 0 => .error .malformed
    | inner + 1 =>
      (readItems (fun items cs => (readValue inner cs).map fun (v, r) => (v :: items, r)) [] rest).map
        fun (items, r) => (.array items.reverse, r)
  | '\x7b' :: rest =>
    match depth with
    | 0 => .error .malformed
    | inner + 1 =>
      (readFields readString
        (fun fields name => afterColon (readValue inner) fun v => insertField name v fields)
        [] rest).map fun (fields, r) => (.object fields, r)
  | rest => readScalar rest

/-- The whole of a text, by the given reader; only blanks may follow. -/
def readAll {α : Type} (reader : Reader ε α) (cs : List Char) : Except (Fault ε) α :=
  match reader cs with
  | .ok (a, rest) => if (skipSpace rest).isEmpty then .ok a else .error .malformed
  | .error e => .error e

end Values

/-- The value of a text with no more than the given number of containers inside one another. -/
def parseWithin (depth : Nat) (text : String) : Option Json :=
  (readAll (readValue (ε := Empty) depth) text.toList).toOption

def parse (text : String) : Option Json := parseWithin maxDepth text

end Json

end ProofHost
