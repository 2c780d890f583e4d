import ProofHost.Host.Basic
import ProofHost.Shell.Word

/-!
The commands that a shell knows by itself, as far as they neither read input nor end the shell.
-/

set_option autoImplicit false

namespace ProofHost.Shell

structure Effect where
  status : Nat
  output : Chars
  host : Host

def pathOf (cs : Chars) : String := String.ofList (Bytes.toTextLossy (Bytes.ofChars cs))

def readOctal (cs : Chars) : Nat × Chars :=
  let digits := (cs.take 3).takeWhile fun c => '0' ≤ c && c ≤ '7'
  (digits.foldl (fun n d => 8 * n + (d.toNat - 48)) 0, cs.drop digits.length)

def letterEscape? (c : Char) : Option Char :=
  match c with
  | 'a' => some '\x07'
  | 'b' => some '\x08'
  | 'f' => some '\x0c'
  | 'n' => some '\n'
  | 'r' => some '\r'
  | 't' => some '\t'
  | 'v' => some '\x0b'
  | '\\' => some '\\'
  | _ => none

def octalChar (n : Nat) : Char := Char.ofNat (n % 256)

/-- The text of words in which escapes stand for characters; `\c` ends the text. -/
def unescape : Nat → Chars → Chars × Bool
  | 0, _ => ([], false)
  | _ + 1, [] => ([], false)
  | fuel + 1, c :: cs =>
    let go (x : Chars) (rest : Chars) : Chars × Bool :=
      let (text, stop) := unescape fuel rest
      (x ++ text, stop)
    if c = '\\' then
      match cs with
      | 'c' :: _ => ([], true)
      | '0' :: rest =>
        let (n, rest') := readOctal rest
        go [octalChar n] rest'
      | d :: rest =>
        match letterEscape? d with
        | some x => go [x] rest
        | none => go [c, d] rest
      | [] => ([c], false)
    else go [c] cs

/-- The output of words with blanks between them, escapes replaced, and a line feed. -/
def echo (words : List Chars) : Chars :=
  let (line, words') : Bool × List Chars :=
    match words with
    | ['-', 'n'] :: rest => (false, rest)
    | _ => (true, words)
  let whole := Values.spaced words'
  let (text, stop) := unescape (whole.length + 1) whole
  if stop || !line then text else text ++ ['\n']

def leadingNumber (cs : Chars) : Option Int × Chars :=
  let (negative, rest) : Bool × Chars :=
    match cs with
    | '-' :: rest => (true, rest)
    | _ => (false, cs)
  match rest.takeWhile Char.isDigit with
  | [] => (none, cs)
  | digits =>
    let n : Nat := digits.foldl (fun n d => 10 * n + (d.toNat - 48)) 0
    (some (if negative then -(n : Int) else n), rest.dropWhile Char.isDigit)

def number? (cs : Chars) : Option Int :=
  match leadingNumber cs with
  | (some n, []) => some n
  | _ => none

structure Formatted where
  text : Chars
  /-- The words that are not used. -/
  words : List Chars
  /-- Was every word that had to be a number one? -/
  wellTyped : Bool

def Formatted.after (x : Chars) (f : Formatted) : Formatted := { f with text := x ++ f.text }

def format : Nat → Chars → List Chars → Formatted
  | 0, _, words => ⟨[], words, true⟩
  | _ + 1, [], words => ⟨[], words, true⟩
  | fuel + 1, c :: cs, words =>
    let go (x : Chars) (rest : Chars) (words : List Chars) : Formatted :=
      (format fuel rest words).after x
    if c = '\\' then
      match cs with
      | d :: rest =>
        if '0' ≤ d && d ≤ '7' then
          let (n, rest') := readOctal cs
          go [octalChar n] rest' words
        else
          match letterEscape? d with
          | some x => go [x] rest words
          | none => go [c, d] rest words
      | [] => ⟨[c], words, true⟩
    else if c = '%' then
      match cs with
      | '%' :: rest => go ['%'] rest words
      | 's' :: rest => go (words.headD []) rest words.tail
      | 'b' :: rest =>
        let word := words.headD []
        go (unescape (word.length + 1) word).1 rest words.tail
      | 'c' :: rest => go ((words.headD []).take 1) rest words.tail
      | 'd' :: rest =>
        let word := words.headD []
        let (n, after) := leadingNumber word
        let f := go (toString (n.getD 0)).toList rest words.tail
        if after.isEmpty then f else { f with wellTyped := false }
      | _ => go [c] cs words
    else go [c] cs words

def printFormat : Nat → Chars → List Chars → Formatted
  | 0, _, words => ⟨[], words, true⟩
  | fuel + 1, pattern, words =>
    let f := format (pattern.length + 1) pattern words
    if f.words.isEmpty || f.words.length == words.length then f
    else
      let more := (printFormat fuel pattern f.words).after f.text
      { more with wellTyped := f.wellTyped && more.wellTyped }

def compare? (operator : Chars) (a b : Int) : Option Bool :=
  match String.ofList operator with
  | "-eq" => some (a == b)
  | "-ne" => some (a != b)
  | "-lt" => some (a < b)
  | "-le" => some (a ≤ b)
  | "-gt" => some (a > b)
  | "-ge" => some (a ≥ b)
  | _ => none

def holds (h : Host) : List Chars → Option Bool
  | [] => some false
  | [['!']] => some true
  | ['!'] :: rest => (holds h rest).map (!·)
  | [a] => some (!a.isEmpty)
  | [operator, a] =>
    match String.ofList operator with
    | "-n" => some (!a.isEmpty)
    | "-z" => some a.isEmpty
    | "-e" => some (h.pathExists (pathOf a))
    | "-r" => some (h.pathExists (pathOf a))
    | "-f" => some (h.isFile (pathOf a))
    | "-d" => some (h.isDirectory (pathOf a))
    | "-s" => some (match h.read (pathOf a) with
      | .ok b => !b.isEmpty
      | .error _ => false)
    | _ => none
  | [a, ['='], b] => some (a == b)
  | [a, ['!', '='], b] => some (a != b)
  | [a, operator, b] =>
    match number? a, number? b with
    | some m, some n => compare? operator m n
    | _, _ => none
  | _ => none

def testStatus (h : Host) (words : List Chars) : Nat :=
  match holds h words with
  | some true => 0
  | some false => 1
  | none => 2

/-- The contents of files one after another; files that cannot be read make it fail. -/
def concatenate (h : Host) (files : List Chars) : Nat × Chars :=
  files.foldl (fun (status, out) file =>
    match h.read (pathOf file) with
    | .ok b => (status, out ++ Bytes.toChars b)
    | .error _ => (1, out)) (0, [])

def removeAll (h : Host) (files : List Chars) : Nat × Host :=
  files.foldl (fun (status, h) file =>
    if file == ['-', 'f'] then (status, h)
    else
      match h.remove (pathOf file) with
      | .ok h' => (status, h')
      | .error _ => (if files.head? == some ['-', 'f'] then status else 1, h)) (0, h)

def builtin (h : Host) (name : Chars) (words : List Chars) (input : Chars) : Effect :=
  match String.ofList name with
  | ":" => ⟨0, [], h⟩
  | "true" => ⟨0, [], h⟩
  | "false" => ⟨1, [], h⟩
  | "sleep" => ⟨0, [], h⟩
  | "echo" => ⟨0, echo words, h⟩
  | "printf" =>
    let f := printFormat (words.length + 1) (words.headD []) words.tail
    ⟨if f.wellTyped then 0 else 1, f.text, h⟩
  | "pwd" => ⟨0, Bytes.toChars (Bytes.ofText (Host.pathOf h.workDir)) ++ ['\n'], h⟩
  | "test" => ⟨testStatus h words, [], h⟩
  | "[" =>
    if words.getLast? == some [']'] then ⟨testStatus h words.dropLast, [], h⟩ else ⟨2, [], h⟩
  | "cat" =>
    if words.isEmpty then ⟨0, input, h⟩
    else
      let (status, out) := concatenate h words
      ⟨status, out, h⟩
  | "rm" =>
    let (status, h') := removeAll h words
    ⟨status, [], h'⟩
  | _ => ⟨127, [], h⟩

end ProofHost.Shell
