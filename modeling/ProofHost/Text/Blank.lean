/-!
Blank characters and the cuts of a text that are made at them: trimming, words and lines.
Texts are lists of characters here, so that each cut is a plain recursion.
-/

set_option autoImplicit false

namespace ProofHost.Text

/-- A blank is a character with the Unicode property White_Space. -/
def isBlank (c : Char) : Bool :=
  let n := c.toNat
  (9 ≤ n && n ≤ 13) || n == 0x20 || n == 0x85 || n == 0xA0 || n == 0x1680 ||
    (0x2000 ≤ n && n ≤ 0x200A) || n == 0x2028 || n == 0x2029 || n == 0x202F ||
    n == 0x205F || n == 0x3000

def dropEndWhile (p : Char → Bool) (cs : List Char) : List Char :=
  (cs.reverse.dropWhile p).reverse

def trimStart (cs : List Char) : List Char := cs.dropWhile isBlank

def trimEnd (cs : List Char) : List Char := dropEndWhile isBlank cs

def trim (cs : List Char) : List Char := trimEnd (trimStart cs)

def pieces (p : Char → Bool) : List Char → List (List Char)
  | [] => [[]]
  | c :: cs =>
    if p c then [] :: pieces p cs
    else
      match pieces p cs with
      | [] => [[c]]
      | w :: ws => (c :: w) :: ws

def words (cs : List Char) : List (List Char) :=
  (pieces isBlank cs).filter (!·.isEmpty)

def dropReturn (line : List Char) : List Char :=
  match line.reverse with
  | '\r' :: rest => rest.reverse
  | _ => line

/--
The lines of a text, each without its line feed and a carriage return right before that. Nothing
after the last line feed is no line; something there is a line as it stands.
-/
def lines (cs : List Char) : List (List Char) :=
  match (pieces (· == '\n') cs).reverse with
  | [] => []
  | last :: ended => (ended.map dropReturn).reverse ++ (if last.isEmpty then [] else [last])

def contains (cs part : List Char) : Bool :=
  match cs with
  | [] => part.isEmpty
  | c :: rest => part.isPrefixOf (c :: rest) || contains rest part

def dropLeading? (part cs : List Char) : Option (List Char) :=
  if part.isPrefixOf cs then some (cs.drop part.length) else none

def dropTrailing? (part cs : List Char) : Option (List Char) :=
  (dropLeading? part.reverse cs.reverse).map List.reverse

end ProofHost.Text
