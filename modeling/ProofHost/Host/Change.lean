import ProofHost.Host.Basic

/-!
The difference between two hosts: what has to be done to a file system like the first so that it is
like the second.
-/

set_option autoImplicit false

namespace ProofHost

namespace Node

mutual

/-- Every node below a node with the names that lead to it: the contents of files, none for
directories, each directory before what is in it. -/
def walk : Node → List (List String × Option Bytes)
  | file content => [([], some content)]
  | directory entries => ([], none) :: walkEntries entries

def walkEntries : List (String × Node) → List (List String × Option Bytes)
  | [] => []
  | (name, node) :: rest =>
    (walk node).map (fun (names, content) => (name :: names, content)) ++ walkEntries rest

end

end Node

inductive Change where
  | makeDirectory (path : String)
  | writeFile (path : String) (content : Bytes)
  | removeFile (path : String)
  deriving DecidableEq, Repr

namespace Host

/-- The change that brings a node to a place of a host, if one is needed. -/
def addition (h : Host) (place : List String) : Option Bytes → Option Change
  | none =>
    match h.node? place with
    | some (.directory _) => none
    | _ => some (.makeDirectory (pathOf place))
  | some content =>
    match h.node? place with
    | some (.file old) => if old = content then none else some (.writeFile (pathOf place) content)
    | _ => some (.writeFile (pathOf place) content)

def removal (h : Host) (place : List String) : Option Change :=
  match h.node? place with
  | none => some (.removeFile (pathOf place))
  | some _ => none

def changes (before after : Host) : List Change :=
  before.root.files.filterMap after.removal ++
    after.root.walk.filterMap fun (place, content) => before.addition place content

end Host

end ProofHost
