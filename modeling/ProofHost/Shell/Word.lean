import ProofHost.Shell.Script

/-!
The values of words: parameters are replaced by their values, unquoted values fall into several
words at blanks, and patterns are matched.
-/

set_option autoImplicit false

namespace ProofHost.Shell

structure Values where
  bindings : List (Chars × Chars)
  arguments : List Chars
  status : Nat

def matchesAll : List Glob → Chars → Bool
  | [], cs => cs.isEmpty
  | .only c :: ps, d :: cs => c == d && matchesAll ps cs
  | .only _ :: _, [] => false
  | .any :: ps, _ :: cs => matchesAll ps cs
  | .any :: _, [] => false
  | .many :: ps, [] => matchesAll ps []
  | .many :: ps, c :: cs => matchesAll ps (c :: cs) || matchesAll (.many :: ps) cs
termination_by ps cs => ps.length + cs.length

def trimFront (longest : Bool) (pattern : List Glob) (cs : Chars) : Chars :=
  let sizes := List.range (cs.length + 1)
  let fits := fun n => matchesAll pattern (cs.take n)
  match (if longest then sizes.reverse else sizes).find? fits with
  | some n => cs.drop n
  | none => cs

def trimBack (longest : Bool) (pattern : List Glob) (cs : Chars) : Chars :=
  let sizes := List.range (cs.length + 1)
  let fits := fun n => matchesAll pattern (cs.drop n)
  match (if longest then sizes else sizes.reverse).find? fits with
  | some n => cs.take n
  | none => cs

namespace Values

def get (v : Values) (name : Chars) : Chars := (v.bindings.lookup name).getD []

def set (v : Values) (name value : Chars) : Values :=
  { v with bindings := (name, value) :: v.bindings.filter fun p => p.1 != name }

def decimal (n : Nat) : Chars := (toString n).toList

def spaced (texts : List Chars) : Chars := [' '].intercalate texts

def parameter (v : Values) (name : Chars) : Chars :=
  match name with
  | ['#'] => decimal (v.arguments.length - 1)
  | ['?'] => decimal v.status
  | ['*'] => spaced (v.arguments.drop 1)
  | ['@'] => spaced (v.arguments.drop 1)
  | [c] => if c.isDigit then (v.arguments[c.toNat - 48]?).getD [] else v.get name
  | _ => v.get name

def trimmed (v : Values) (name : Chars) : Trim → Chars
  | .keep => v.parameter name
  | .front longest pattern => trimFront longest pattern (v.parameter name)
  | .back longest pattern => trimBack longest pattern (v.parameter name)
  | .default text => if (v.parameter name).isEmpty then text else v.parameter name
  | .size => decimal (v.parameter name).length

def text (v : Values) (w : Word) : Chars :=
  w.flatMap fun p =>
    match p with
    | .text _ cs => cs
    | .parameter _ name trim => v.trimmed name trim

def separators (v : Values) : Chars := (v.bindings.lookup ['I', 'F', 'S']).getD [' ', '\t', '\n']

structure Fields where
  complete : List Chars
  current : Option Chars

def Fields.add (f : Fields) (cs : Chars) : Fields :=
  { f with current := some (f.current.getD [] ++ cs) }

def Fields.cut (f : Fields) : Fields :=
  match f.current with
  | some cs => ⟨cs :: f.complete, none⟩
  | none => f

def Fields.spread (separators : Chars) (f : Fields) (cs : Chars) : Fields :=
  cs.foldl (fun f c => if separators.contains c then f.cut else f.add [c]) f

def Fields.each (f : Fields) : List Chars → Fields
  | [] => f
  | [a] => f.add a
  | a :: as => Fields.each (f.add a).cut as

def addPiece (v : Values) (f : Fields) : Piece → Fields
  | .text _ cs => f.add cs
  | .parameter true ['@'] .keep => f.each (v.arguments.drop 1)
  | .parameter true name trim => f.add (v.trimmed name trim)
  | .parameter false name trim => f.spread v.separators (v.trimmed name trim)

def expand (v : Values) (w : Word) : List Chars :=
  (w.foldl v.addPiece ⟨[], none⟩).cut.complete.reverse

def pattern (v : Values) (w : Word) : List Glob :=
  w.flatMap fun p =>
    match p with
    | .text true cs => cs.map .only
    | .text false cs => globs cs
    | .parameter true name trim => (v.trimmed name trim).map .only
    | .parameter false name trim => globs (v.trimmed name trim)

end Values

end ProofHost.Shell
