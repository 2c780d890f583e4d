import ProofHost.Text.Path

/-!
Environment variables, and the directories that they choose for a user's files.
-/

set_option autoImplicit false

namespace ProofHost

abbrev Environment := List (String × String)

namespace Environment

def home? (env : Environment) : Option String := (env.lookup "HOME").filter (!·.isEmpty)

def absolute? (env : Environment) (name : String) : Option String :=
  (env.lookup name).filter Text.Path.isAbsolute

/-- The directory of the user's configuration files. -/
def configDir? (env : Environment) : Option String :=
  (env.absolute? "XDG_CONFIG_HOME").or (env.home?.map (Text.Path.below · ".config"))

def dataDir? (env : Environment) : Option String :=
  (env.absolute? "XDG_DATA_HOME").or (env.home?.map (Text.Path.below · ".local/share"))

def tempDir (env : Environment) : String := (env.lookup "TMPDIR").getD "/tmp"

end Environment

end ProofHost
