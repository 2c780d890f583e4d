/-!
Shell scripts. Texts in scripts are sequences of bytes, each kept as the character of its number.
-/

set_option autoImplicit false

namespace ProofHost.Shell

abbrev Chars := List Char

inductive Glob where
  /-- Exactly this character. -/
  | only (c : Char)
  /-- Any one character. -/
  | any
  /-- Any sequence of characters. -/
  | many
  deriving DecidableEq, Repr

def globs (cs : Chars) : List Glob :=
  cs.map fun c => if c = '*' then .many else if c = '?' then .any else .only c

inductive Trim where
  | keep
  /-- Drop a match of the pattern at the front, the longest or the shortest one. -/
  | front (longest : Bool) (pattern : List Glob)
  /-- Drop a match of the pattern at the end, the longest or the shortest one. -/
  | back (longest : Bool) (pattern : List Glob)
  /-- Take a text instead of an empty value. -/
  | default (text : Chars)
  /-- Take the count of characters. -/
  | size
  deriving DecidableEq, Repr

inductive Piece where
  /-- A text; unquoted ones can hold pattern characters. -/
  | text (quoted : Bool) (cs : Chars)
  /-- The value of a parameter; unquoted ones fall into words at blanks. -/
  | parameter (quoted : Bool) (name : Chars) (trim : Trim)
  deriving DecidableEq, Repr

abbrev Word := List Piece

inductive Mode where
  | input
  | overwrite
  | append
  deriving DecidableEq, Repr

structure Redirect where
  stream : Nat
  mode : Mode
  file : Word
  deriving DecidableEq, Repr

inductive Command where
  | nothing
  | simple (assignments : List (Chars × Word)) (words : List Word) (redirects : List Redirect)
  | sequence (first second : Command)
  /-- The second command is run only if the first succeeds, or only if it fails. -/
  | afterwards (onSuccess : Bool) (first second : Command)
  | negation (c : Command)
  | choice (condition yes no : Command)
  /-- The body is repeated as long as the condition succeeds, or until it does. -/
  | loop (whileSuccess : Bool) (condition body : Command)
  | select (subject : Word) (arms : List (List Word × Command))
  /-- The body is run with a variable set to each of the words in turn. -/
  | each (name : Chars) (words : List Word) (body : Command)

end ProofHost.Shell
