import ProofHost.Json.Printer
import ProofHost.Text.Blank

/-!
Proofs that are open in a sequence of sentences. A declaration states what is to be proved, a
sentence that begins a proof opens it, and a closing sentence ends it and forgets the statement.
-/

set_option autoImplicit false

namespace ProofHost.Goals

def declarations : List String :=
  ["Lemma", "Theorem", "Definition", "Fixpoint", "Inductive", "Example"]

def opener : String := "Proof"

def closers : List String := ["Qed.", "Defined.", "Admitted.", "Abort."]

def beginsWith (word : String) (text : List Char) : Bool := word.toList.isPrefixOf text

def isDeclaration (text : List Char) : Bool := declarations.any (beginsWith · text)

def isOpener (text : List Char) : Bool := beginsWith opener text

def isCloser (text : List Char) : Bool := closers.any (beginsWith · text)

structure Bracket where
  statement : Option (List Char)
  isOpen : Bool
  deriving DecidableEq, Repr

def Bracket.none : Bracket := ⟨.none, false⟩

def Bracket.read (b : Bracket) (text : List Char) : Bracket :=
  if isDeclaration text then { b with statement := some text }
  else if isOpener text then { b with isOpen := b.statement.isSome }
  else if isCloser text then .none
  else b

def openStatement (texts : List String) : Option (List Char) :=
  let b := (texts.map fun t => Text.trim t.toList).foldl Bracket.read .none
  if b.isOpen then b.statement else none

/-- The snapshot of the goals of an open proof: the statement, with nothing assumed. -/
def snapshot (statement : List Char) : Json :=
  .object [
    ("given_up", .array []),
    ("goals", .array [.object [("hyp", .array []), ("ty", .string (String.ofList statement))]]),
    ("shelf", .array []),
    ("stack", .array [])]

def declaredName (text : String) : Option String :=
  match Text.words text.toList with
  | keyword :: name :: _ =>
    if declarations.any fun d => d.toList == keyword then
      some (String.ofList (Text.dropEndWhile (fun c => c == ':' || c == '.') name))
    else none
  | _ => none

end ProofHost.Goals
