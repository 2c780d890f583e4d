import ProofHost.Text.Blank

/-!
Slash-separated paths as texts.
-/

set_option autoImplicit false

namespace ProofHost.Text.Path

/-- The components of a path, with an empty one at each doubled, leading or trailing slash. -/
def split (path : String) : List String :=
  (pieces (· == '/') path.toList).map String.ofList

def join (parts : List String) : String := "/".intercalate parts

def isAbsolute (path : String) : Bool := path.toList.head? == some '/'

def dropEndSlashes (path : String) : String :=
  String.ofList (dropEndWhile (· == '/') path.toList)

def dropStartSlashes (path : String) : String :=
  String.ofList (path.toList.dropWhile (· == '/'))

def below (dir path : String) : String :=
  if dir.isEmpty then path
  else if dir.toList.getLast? == some '/' then dir ++ path
  else dir ++ "/" ++ path

/-- The directory part of a path and its last component, cut at the last slash. -/
def cut (path : String) : Option (String × String) :=
  match (split path).reverse with
  | last :: (first :: rest) => some (join (first :: rest).reverse, last)
  | _ => none

/--
The path of the directory that holds the last component. Empty components do not count, nor does a
single dot unless it begins a relative path; a path without components has no parent.
-/
def parent? (path : String) : Option String :=
  let all := split path
  let kept :=
    match all with
    | "." :: rest => "." :: rest.filter fun part => part != "" && part != "."
    | _ => all.filter fun part => part != "" && part != "."
  match kept.reverse with
  | [] => none
  | _ :: rest => some ((if isAbsolute path then "/" else "") ++ join rest.reverse)

end ProofHost.Text.Path
