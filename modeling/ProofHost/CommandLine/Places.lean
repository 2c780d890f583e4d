import ProofHost.CommandLine.Arguments
import ProofHost.Config.File
import ProofHost.Session.Serve

/-!
The places of the host's file system that a run reads: the user's configuration file, the sandbox,
and the local files to which addresses point.
-/

set_option autoImplicit false

namespace ProofHost.CommandLine

def localFile (uri : String) : Option String :=
  if Package.isRemote uri then none else some (Package.localPath uri)

def packageFiles (c : Config) (uris : List String) : List String :=
  uris.filterMap fun uri => localFile (Package.resolve c.binaryRoot uri)

def binaryFiles (c : Config) : List String :=
  (c.kernelImage :: c.stubs).filterMap fun name => localFile (c.locate name)

def configPlaces (env : Environment) : List String := (Config.userPath env).toOption.toList

def placesOf (c : Config) : Invocation → List String
  | .serve _ => c.sandboxRoot :: binaryFiles c ++ packageFiles c c.initialPackages
  | .install uris => c.sandboxRoot :: packageFiles c uris
  | .get _ => [c.sandboxRoot]
  | .config _ => []

def placesOfLine (c : Config) (line : String) : List String :=
  match Session.requestOf line with
  | some (.loadPackages uris) => packageFiles c uris
  | _ => []

end ProofHost.CommandLine
