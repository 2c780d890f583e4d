import ProofHost.Text.Path

/-!
Addresses of packages. A name after a plus sign is short for a package that comes with the kernel.
-/

set_option autoImplicit false

namespace ProofHost.Package

/-- The full address of a package, given the place of the bundled ones. -/
def resolve (binaryRoot uri : String) : String :=
  match uri.toList with
  | '+' :: name =>
    Text.Path.dropEndSlashes binaryRoot ++ "/coq/" ++ String.ofList name ++ ".coq-pkg"
  | _ => uri

/-- The path of a file of a package that is installed in a directory. -/
def target (dir name : String) : String :=
  let below := Text.Path.dropStartSlashes dir
  if below.isEmpty then name else Text.Path.dropEndSlashes below ++ "/" ++ name

end ProofHost.Package
