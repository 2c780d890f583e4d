import ProofHost.Decimal.Layout
import ProofHost.Json.Basic

/-!
The text of a JSON value, on one line without blanks or indented over several lines.
-/

set_option autoImplicit false

namespace ProofHost

namespace Number

def render : Number → List Char
  | .natural n => Decimal.natDigits n.toNat
  | .negative below => '-' :: Decimal.natDigits (below.val + 1)
  | .real bits => Decimal.Layout.data.render bits

end Number

namespace Json

def hexDigit (n : Nat) : Char :=
  if n < 10 then Char.ofNat (48 + n) else Char.ofNat (87 + n)

/-- The form of one character inside a string: only quotes, backslashes and controls are escaped. -/
def escape (c : Char) : List Char :=
  if c = '"' then ['\\', '"']
  else if c = '\\' then ['\\', '\\']
  else if c = '\x08' then ['\\', 'b']
  else if c = '\x0c' then ['\\', 'f']
  else if c = '\n' then ['\\', 'n']
  else if c = '\r' then ['\\', 'r']
  else if c = '\t' then ['\\', 't']
  else if c.toNat < 32 then
    ['\\', 'u', '0', '0', hexDigit (c.toNat / 16), hexDigit (c.toNat % 16)]
  else [c]

def renderString (s : String) : List Char := '"' :: (s.toList.flatMap escape ++ ['"'])

mutual

def renderChars : Json → List Char
  | .null => ['n', 'u', 'l', 'l']
  | .bool true => ['t', 'r', 'u', 'e']
  | .bool false => ['f', 'a', 'l', 's', 'e']
  | .number n => n.render
  | .string s => renderString s
  | .array [] => ['[', ']']
  | .array (x :: xs) => '[' :: (renderChars x ++ renderItems xs)
  | .object [] => ['\x7b', '\x7d']
  | .object ((k, v) :: fs) => '\x7b' :: (renderString k ++ ':' :: (renderChars v ++ renderFields fs))

def renderItems : List Json → List Char
  | [] => [']']
  | x :: xs => ',' :: (renderChars x ++ renderItems xs)

def renderFields : List (String × Json) → List Char
  | [] => ['\x7d']
  | (k, v) :: fs => ',' :: (renderString k ++ ':' :: (renderChars v ++ renderFields fs))

end

theorem renderChars_number (n : Number) : renderChars (.number n) = n.render := by
  rw [renderChars]

theorem renderChars_string (s : String) : renderChars (.string s) = renderString s := by
  rw [renderChars]

def render (v : Json) : String := String.ofList (renderChars v)

/-- A line feed and the blanks of an indentation by two for each level. -/
def newline (level : Nat) : List Char := '\n' :: List.replicate (2 * level) ' '

mutual

/-- The text of a value over several lines, inside the given level. -/
def indentChars (level : Nat) : Json → List Char
  | .array (x :: xs) =>
    '[' :: (newline (level + 1) ++ indentChars (level + 1) x ++ indentItems level xs)
  | .object ((k, v) :: fs) =>
    '\x7b' :: (newline (level + 1) ++ renderString k ++ ':' :: ' ' ::
      (indentChars (level + 1) v ++ indentFields level fs))
  | .null => ['n', 'u', 'l', 'l']
  | .bool true => ['t', 'r', 'u', 'e']
  | .bool false => ['f', 'a', 'l', 's', 'e']
  | .number n => n.render
  | .string s => renderString s
  | .array [] => ['[', ']']
  | .object [] => ['\x7b', '\x7d']

def indentItems (level : Nat) : List Json → List Char
  | [] => newline level ++ [']']
  | x :: xs =>
    ',' :: (newline (level + 1) ++ indentChars (level + 1) x ++ indentItems level xs)

def indentFields (level : Nat) : List (String × Json) → List Char
  | [] => newline level ++ ['\x7d']
  | (k, v) :: fs =>
    ',' :: (newline (level + 1) ++ renderString k ++ ':' :: ' ' ::
      (indentChars (level + 1) v ++ indentFields level fs))

end

/-- The text of a value over several lines, two blanks deeper at each level. -/
def renderIndented (v : Json) : String := String.ofList (indentChars 0 v)

end Json

end ProofHost
