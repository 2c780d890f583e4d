import ProofHost.Document.Basic
import ProofHost.Text.Blank

/-!
The drawing of a document as a tree of lines, one for each live state.
-/

set_option autoImplicit false

namespace ProofHost.Document

/-- The number of characters of a sentence that a line shows. -/
def excerptLength : Nat := 40

/-- The first line of a sentence without blanks around it, cut when it is long. -/
def excerpt (text : String) : List Char :=
  let line := Text.trim ((Text.lines text.toList).headD [])
  if excerptLength < line.length then line.take excerptLength ++ ['…'] else line

/-- The line of a state below the root, after the given margin. -/
def nodeLine (d : Document) (margin : List Char) (isLast : Bool) (id : StateId) : List Char :=
  margin ++ (if isLast then "└── " else "├── ").toList ++
    [if d.tip = some id then '●' else '○', ' '] ++ (toString id.toNat).toList ++
    ' ' :: excerpt ((d.textOf id).getD "") ++ ['\n']

mutual

/-- The lines of the states under a state, in order; the number bounds the depth. -/
def branchLines (d : Document) (margin : List Char) : Nat → List StateId → List Char
  | _, [] => []
  | 0, _ :: _ => []
  | fuel + 1, id :: rest =>
    subtreeLines d margin rest.isEmpty fuel id ++ branchLines d margin fuel rest

/-- The lines of a state below the root and of everything under it. -/
def subtreeLines (d : Document) (margin : List Char) (isLast : Bool) : Nat → StateId → List Char
  | 0, _ => []
  | fuel + 1, id =>
    nodeLine d margin isLast id ++
      branchLines d (margin ++ (if isLast then "    " else "│   ").toList) fuel (d.children id)

end

def render (d : Document) : String :=
  match d.root with
  | none => ""
  | some root =>
    String.ofList ((toString root.toNat).toList ++ '\n' ::
      branchLines d [] (2 * d.entries.length + 1) (d.children root))

end ProofHost.Document
