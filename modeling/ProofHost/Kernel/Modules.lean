import ProofHost.Sandbox.Basic

/-!
The modules of the load path: the compiled files below the library root, each named by its path with
dots between the components.
-/

set_option autoImplicit false

namespace ProofHost.Modules

def extension : String := ".vo"

def nameOf (libRoot path : String) : Option String := do
  let stem ← Text.dropTrailing? extension.toList path.toList
  let inner ← Text.dropLeading? libRoot.toList stem
  return String.ofList
    ((inner.dropWhile (· == '/')).map fun c => if c = '/' then '.' else c)

/-- The modules below the library root in the order of their paths. -/
def scan (h : Host) (s : Sandbox) : List String :=
  match s.list h s.libRoot with
  | .ok paths => paths.filterMap (nameOf s.libRoot)
  | .error _ => []

def isUnder (components : List String) (name : String) : Bool :=
  let joined := ".".intercalate components
  name == joined || (joined ++ ".").toList.isPrefixOf name.toList

def mentions (word name : String) : Bool := Text.contains name.toList word.toList

end ProofHost.Modules
