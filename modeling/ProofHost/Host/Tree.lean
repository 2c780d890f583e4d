import ProofHost.Bytes

/-!
A tree of directories and files, addressed by lists of names.
-/

set_option autoImplicit false

namespace ProofHost

/-- A file with its contents or a directory with its entries, each name once. -/
inductive Node where
  | file (content : Bytes)
  | directory (entries : List (String × Node))
  deriving Repr

namespace Node

def isDirectory : Node → Bool
  | directory _ => true
  | file _ => false

/-- Put an entry into a directory's entries; an entry of the same name is replaced in its place. -/
def setEntry (name : String) (node : Node) : List (String × Node) → List (String × Node)
  | [] => [(name, node)]
  | (other, old) :: rest =>
    if name = other then (name, node) :: rest else (other, old) :: setEntry name node rest

def eraseEntry (name : String) (entries : List (String × Node)) : List (String × Node) :=
  entries.filter fun (other, _) => other != name

def find? : Node → List String → Option Node
  | node, [] => some node
  | file _, _ :: _ => none
  | directory entries, name :: rest =>
    match entries.lookup name with
    | none => none
    | some child => find? child rest

/-- The tree with a node put at the end of a list of names; nothing changes unless the names before
the last lead to a directory. -/
def set (node : Node) : Node → List String → Node
  | _, [] => node
  | file content, _ :: _ => file content
  | directory entries, [name] => directory (setEntry name node entries)
  | directory entries, name :: next :: rest =>
    match entries.lookup name with
    | none => directory entries
    | some child => directory (setEntry name (set node child (next :: rest)) entries)

/-- The tree without the node at the end of a list of names. -/
def erase : Node → List String → Node
  | node, [] => node
  | file content, _ :: _ => file content
  | directory entries, [name] => directory (eraseEntry name entries)
  | directory entries, name :: next :: rest =>
    match entries.lookup name with
    | none => directory entries
    | some child => directory (setEntry name (erase child (next :: rest)) entries)

mutual

def files : Node → List (List String)
  | file _ => [[]]
  | directory entries => filesOf entries

/-- The names that lead to each file below a list of entries. -/
def filesOf : List (String × Node) → List (List String)
  | [] => []
  | (name, node) :: rest => (files node).map (name :: ·) ++ filesOf rest

end

end Node

end ProofHost
