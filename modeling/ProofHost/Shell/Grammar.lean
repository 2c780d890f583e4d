import ProofHost.Shell.Script

/-!
Reading shell scripts: words with their quotes and parameters, simple commands with redirections,
lists, conditions, loops and selections. Pipes, functions and substitutions are not part of the
grammar, and scripts that have them are refused.
-/

set_option autoImplicit false

namespace ProofHost.Shell

def isNameStart (c : Char) : Bool := c.isAlpha || c == '_'

def isNameChar (c : Char) : Bool := c.isAlphanum || c == '_'

def isGap (c : Char) : Bool := c == ' ' || c == '\t'

def endsWord (c : Char) : Bool :=
  isGap c || c == '\n' || c == ';' || c == '&' || c == '|' || c == '<' || c == '>' || c == '(' ||
    c == ')'

def readName : Chars → Option (Chars × Chars)
  | [] => none
  | c :: cs =>
    if isNameStart c then some (c :: cs.takeWhile isNameChar, cs.dropWhile isNameChar) else none

def isSpecial (c : Char) : Bool := c.isDigit || c == '#' || c == '*' || c == '@' || c == '?'

def readTrim (cs : Chars) : Option (Trim × Chars) :=
  let inner := cs.takeWhile (· != '\x7d')
  match cs.dropWhile (· != '\x7d') with
  | [] => none
  | _ :: rest =>
    match inner with
    | [] => some (.keep, rest)
    | '#' :: '#' :: p => some (.front true (globs p), rest)
    | '#' :: p => some (.front false (globs p), rest)
    | '%' :: '%' :: p => some (.back true (globs p), rest)
    | '%' :: p => some (.back false (globs p), rest)
    | ':' :: '-' :: text => some (.default text, rest)
    | _ => none

def readParameterName (cs : Chars) : Option (Chars × Chars) :=
  match cs with
  | [] => none
  | c :: rest => if isSpecial c then some ([c], rest) else readName cs

def readParameter (quoted : Bool) (cs : Chars) : Option (Piece × Chars) :=
  match cs with
  | '(' :: _ => none
  | '\x7b' :: '#' :: rest =>
    match readParameterName rest with
    | some (name, '\x7d' :: rest') => some (.parameter quoted name .size, rest')
    | _ => (readTrim rest).map fun (trim, r) => (.parameter quoted ['#'] trim, r)
  | '\x7b' :: rest => do
    let (name, rest) ← readParameterName rest
    let (trim, rest) ← readTrim rest
    return (.parameter quoted name trim, rest)
  | _ =>
    match readParameterName cs with
    | some (name, rest) => some (.parameter quoted name .keep, rest)
    | none => some (.text true ['$'], cs)

def readQuoted : Nat → Chars → Option (List Piece × Chars)
  | 0, _ => none
  | _ + 1, [] => none
  | fuel + 1, c :: cs =>
    if c = '"' then some ([], cs)
    else if c = '\x60' then none
    else if c = '$' then
      match readParameter true cs with
      | none => none
      | some (p, rest) => (readQuoted fuel rest).map fun (ps, r) => (p :: ps, r)
    else if c = '\\' then
      match cs with
      | '\n' :: rest => readQuoted fuel rest
      | d :: rest =>
        let cs' := if d = '$' ∨ d = '\x60' ∨ d = '"' ∨ d = '\\' then [d] else [c, d]
        (readQuoted fuel rest).map fun (ps, r) => (.text true cs' :: ps, r)
      | [] => none
    else (readQuoted fuel cs).map fun (ps, r) => (.text true [c] :: ps, r)

def allArguments : Piece := .parameter true ['@'] .keep

/-- The parts of a text in double quotes; it is a word even if it is empty, unless it stands for all
arguments, of which there may be none. -/
def inQuotes (inner : List Piece) : List Piece :=
  if inner = [allArguments] then inner else .text true [] :: inner

def readPieces : Nat → Chars → Option (List Piece × Chars)
  | 0, _ => none
  | _ + 1, [] => some ([], [])
  | fuel + 1, c :: cs =>
    if endsWord c then some ([], c :: cs)
    else if c = '\x60' then none
    else if c = '\x27' then
      match cs.dropWhile (· != '\x27') with
      | [] => none
      | _ :: rest =>
        (readPieces fuel rest).map fun (ps, r) => (.text true (cs.takeWhile (· != '\x27')) :: ps, r)
    else if c = '"' then
      match readQuoted (cs.length + 1) cs with
      | none => none
      | some (inner, rest) =>
        (readPieces fuel rest).map fun (ps, r) => (inQuotes inner ++ ps, r)
    else if c = '$' then
      match readParameter false cs with
      | none => none
      | some (p, rest) => (readPieces fuel rest).map fun (ps, r) => (p :: ps, r)
    else if c = '\\' then
      match cs with
      | '\n' :: rest => readPieces fuel rest
      | d :: rest => (readPieces fuel rest).map fun (ps, r) => (.text true [d] :: ps, r)
      | [] => none
    else (readPieces fuel cs).map fun (ps, r) => (.text false [c] :: ps, r)

def readWord (cs : Chars) : Option (Word × Chars) :=
  match readPieces (cs.length + 1) cs with
  | some ([], _) => none
  | r => r

def skipGaps : Chars → Chars
  | '\\' :: '\n' :: cs => skipGaps cs
  | c :: cs => if isGap c then skipGaps cs else c :: cs
  | [] => []

def skipComment : Chars → Chars
  | '#' :: cs => cs.dropWhile (· != '\n')
  | cs => cs

def skipLines : Nat → Chars → Chars
  | 0, cs => cs
  | fuel + 1, cs =>
    match skipComment (skipGaps cs) with
    | '\n' :: rest => skipLines fuel rest
    | rest => rest

def peekLetters (cs : Chars) : Chars := cs.takeWhile (!endsWord ·)

def expectWord (word : String) (cs : Chars) : Option Chars :=
  if peekLetters cs = word.toList then some (cs.drop word.length) else none

def readAssignment (cs : Chars) : Option (Chars × Chars) :=
  match readName cs with
  | some (name, '=' :: rest) => some (name, rest)
  | _ => none

def sinkName : Chars := "/dev/null".toList

/--
The operator of a redirection and the stream that it names or implies. Nobody reads the stream of
complaints, so that a redirection to it swallows what is written.
-/
def readOperator (cs : Chars) : Option (Nat × Mode × Chars) :=
  let digits := cs.takeWhile Char.isDigit
  let named (implied : Nat) : Nat :=
    match digits with
    | d :: _ => d.toNat - 48
    | [] => implied
  match cs.dropWhile Char.isDigit with
  | '>' :: '&' :: '2' :: rest => some (named 1, .overwrite, sinkName ++ rest)
  | '>' :: '&' :: _ => none
  | '>' :: '>' :: rest => some (named 1, .append, rest)
  | '>' :: rest => some (named 1, .overwrite, rest)
  | '<' :: '<' :: _ => none
  | '<' :: rest => some (named 0, .input, rest)
  | _ => none

def readSimple : Nat → List (Chars × Word) → List Word → List Redirect → Chars →
    Option (Command × Chars)
  | 0, _, _, _, _ => none
  | fuel + 1, assignments, words, redirects, cs =>
    let cs := skipGaps cs
    let done : Option (Command × Chars) :=
      if assignments.isEmpty && words.isEmpty && redirects.isEmpty then none
      else some (.simple assignments.reverse words.reverse redirects.reverse, cs)
    match readOperator cs with
    | some (stream, mode, rest) =>
      match readWord (skipGaps rest) with
      | none => none
      | some (file, rest') =>
        readSimple fuel assignments words (⟨stream, mode, file⟩ :: redirects) rest'
    | none =>
      match cs with
      | [] => done
      | '#' :: _ => done
      | c :: _ =>
        if endsWord c then done
        else
          match if words.isEmpty then readAssignment cs else none with
          | some (name, rest) =>
            match readPieces (rest.length + 1) rest with
            | none => none
            | some (value, rest') =>
              readSimple fuel ((name, value) :: assignments) words redirects rest'
          | none =>
            match readWord cs with
            | none => none
            | some (word, rest) => readSimple fuel assignments (word :: words) redirects rest

def readPatterns : Nat → Chars → Option (List Word × Chars)
  | 0, _ => none
  | fuel + 1, cs => do
    let (word, rest) ← readWord (skipGaps cs)
    match skipGaps rest with
    | ')' :: rest' => return ([word], rest')
    | '|' :: rest' =>
      let (words, rest'') ← readPatterns fuel rest'
      return (word :: words, rest'')
    | _ => none

def readWords : Nat → Chars → Option (List Word × Chars)
  | 0, _ => none
  | fuel + 1, cs =>
    match skipGaps cs with
    | ';' :: rest => some ([], rest)
    | '\n' :: rest => some ([], rest)
    | cs => do
      let (word, rest) ← readWord cs
      let (words, rest) ← readWords fuel rest
      return (word :: words, rest)

def readItems (fuel : Nat) (cs : Chars) : Option (List Word × Chars) :=
  match expectWord "in" cs with
  | some rest => readWords fuel rest
  | none =>
    match cs with
    | ';' :: rest => some ([[allArguments]], rest)
    | _ => some ([[allArguments]], cs)

def endsList (cs : Chars) : Bool :=
  cs.isEmpty || [';', ';'].isPrefixOf cs ||
    ["then", "elif", "else", "fi", "do", "done", "esac", "\x7d"].any fun word =>
      peekLetters cs == word.toList

mutual

def readList : Nat → Chars → Option (Command × Chars)
  | 0, _ => none
  | fuel + 1, cs =>
    let cs := skipLines (cs.length + 1) cs
    if endsList cs then some (.nothing, cs)
    else do
      let (first, rest) ← readChain fuel cs
      match skipComment (skipGaps rest) with
      | ';' :: ';' :: rest' => return (first, ';' :: ';' :: rest')
      | ';' :: rest' =>
        let (second, rest'') ← readList fuel rest'
        return (.sequence first second, rest'')
      | '\n' :: rest' =>
        let (second, rest'') ← readList fuel rest'
        return (.sequence first second, rest'')
      | rest' => if endsList rest' then return (first, rest') else none

def readChain : Nat → Chars → Option (Command × Chars)
  | 0, _ => none
  | fuel + 1, cs => do
    let (first, rest) ← readOne fuel cs
    readLinks fuel first rest

def readLinks : Nat → Command → Chars → Option (Command × Chars)
  | 0, _, _ => none
  | fuel + 1, first, cs =>
    match skipGaps cs with
    | '&' :: '&' :: rest => do
      let (second, rest') ← readOne fuel (skipLines (rest.length + 1) rest)
      readLinks fuel (.afterwards true first second) rest'
    | '|' :: '|' :: rest => do
      let (second, rest') ← readOne fuel (skipLines (rest.length + 1) rest)
      readLinks fuel (.afterwards false first second) rest'
    | rest => some (first, rest)

def readOne : Nat → Chars → Option (Command × Chars)
  | 0, _ => none
  | fuel + 1, cs =>
    let cs := skipGaps cs
    match String.ofList (peekLetters cs) with
    | "!" => do
      let (c, rest) ← readOne fuel (cs.drop 1)
      return (.negation c, rest)
    | "if" => readChoice fuel (cs.drop 2)
    | "while" => readLoop fuel true (cs.drop 5)
    | "until" => readLoop fuel false (cs.drop 5)
    | "case" => do
      let (subject, rest) ← readWord (skipGaps (cs.drop 4))
      let rest ← expectWord "in" (skipLines (rest.length + 1) rest)
      let (arms, rest) ← readArms fuel rest
      return (.select subject arms, rest)
    | "for" => do
      let (name, rest) ← readName (skipGaps (cs.drop 3))
      let (words, rest) ← readItems (cs.length + 1) (skipGaps rest)
      let rest ← expectWord "do" (skipLines (rest.length + 1) rest)
      let (body, rest) ← readList fuel rest
      return (.each name words body, ← expectWord "done" rest)
    | "\x7b" => do
      let (c, rest) ← readList fuel (cs.drop 1)
      return (c, ← expectWord "\x7d" rest)
    | _ => readSimple (cs.length + 1) [] [] [] cs

def readChoice : Nat → Chars → Option (Command × Chars)
  | 0, _ => none
  | fuel + 1, cs => do
    let (condition, rest) ← readList fuel cs
    let rest ← expectWord "then" rest
    let (yes, rest) ← readList fuel rest
    match expectWord "elif" rest, expectWord "else" rest with
    | some rest', _ =>
      let (no, rest'') ← readChoice fuel rest'
      return (.choice condition yes no, rest'')
    | none, some rest' =>
      let (no, rest'') ← readList fuel rest'
      return (.choice condition yes no, ← expectWord "fi" rest'')
    | none, none => return (.choice condition yes .nothing, ← expectWord "fi" rest)

def readLoop : Nat → Bool → Chars → Option (Command × Chars)
  | 0, _, _ => none
  | fuel + 1, whileSuccess, cs => do
    let (condition, rest) ← readList fuel cs
    let rest ← expectWord "do" rest
    let (body, rest) ← readList fuel rest
    return (.loop whileSuccess condition body, ← expectWord "done" rest)

def readArms : Nat → Chars → Option (List (List Word × Command) × Chars)
  | 0, _ => none
  | fuel + 1, cs =>
    let cs := skipLines (cs.length + 1) cs
    match expectWord "esac" cs with
    | some rest => some ([], rest)
    | none => do
      let cs := match cs with
        | '(' :: rest => rest
        | _ => cs
      let (patterns, rest) ← readPatterns (cs.length + 1) cs
      let (body, rest) ← readList fuel rest
      let rest := match rest with
        | ';' :: ';' :: rest' => rest'
        | _ => rest
      let (arms, rest) ← readArms fuel rest
      return ((patterns, body) :: arms, rest)

end

def readScript (cs : Chars) : Option Command :=
  match readList (6 * cs.length + 6) cs with
  | some (c, []) => some c
  | _ => none

end ProofHost.Shell
