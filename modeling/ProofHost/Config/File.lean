import ProofHost.Config.Basic
import ProofHost.Json.Reader

/-!
Configuration files. A file that does not exist stands for the defaults.
-/

set_option autoImplicit false

namespace ProofHost

inductive ConfigError where
  | noDirectory
  | unreadable (cause : OsError)
  | unusable (cause : Fault Mismatch)
  | directoryNotMade (cause : OsError)
  | unwritable (cause : OsError)
  deriving DecidableEq, Repr

namespace ConfigError

def headline : ConfigError → String
  | noDirectory => "Could not determine config directory"
  | unreadable _ => "Failed to read config file"
  | unusable _ => "Failed to parse config file"
  | directoryNotMade _ => "Failed to create config directory"
  | unwritable _ => "Failed to write config file"

def cause? : ConfigError → Option String
  | noDirectory => none
  | unreadable cause => some cause.message
  | unusable .malformed => some "invalid JSON"
  | unusable (.rejected cause) => some cause.message
  | directoryNotMade cause => some cause.message
  | unwritable cause => some cause.message

def message (e : ConfigError) : String :=
  match e.cause? with
  | some cause => e.headline ++ ": " ++ cause
  | none => e.headline

end ConfigError

namespace Config

/-- Read a configuration from a text, with the missing fields taken from the given one. -/
def parse (base : Config) (text : String) : Except (Fault Mismatch) Config :=
  Json.readAll (fun cs =>
    match base.shape.read Json.maxDepth cs with
    | .error e => .error e
    | .ok (values, rest) =>
      match ofValues values with
      | .ok c => .ok (c, rest)
      | .error e => .error (.rejected e)) text.toList

def render (c : Config) : String := c.toJson.renderIndented

/-- Read a configuration file; one that does not exist gives the configuration at hand. -/
def ofFile (base : Config) (h : Host) (path : String) : Except ConfigError Config :=
  if h.pathExists path then
    match h.read path with
    | .error e => .error (.unreadable e)
    | .ok b =>
      match Bytes.toText? b with
      | none => .error (.unreadable .notText)
      | some text => (base.parse text).mapError .unusable
  else .ok base

/-- Write a configuration file, making its directory if that is missing. -/
def toFile (c : Config) (h : Host) (path : String) : Except ConfigError Unit × Host :=
  let made :=
    match Text.Path.parent? path with
    | some dir => h.makeDirs dir
    | none => (.ok (), h)
  match made with
  | (.error e, h') => (.error (.directoryNotMade e), h')
  | (.ok _, h') =>
    match h'.write path (Bytes.ofText c.render) with
    | .ok h'' => (.ok (), h'')
    | .error e => (.error (.unwritable e), h')

def userPath (env : Environment) : Except ConfigError String :=
  match env.configDir? with
  | some dir => .ok (Text.Path.below (Text.Path.below dir appName) "config.json")
  | none => .error .noDirectory

/-- The user's configuration, or the defaults when it cannot be had. -/
def load (env : Environment) (h : Host) : Config :=
  match userPath env >>= ofFile (default env) h with
  | .ok c => c
  | .error _ => default env

def ofEnvironment (env : Environment) (h : Host) : Config := (load env h).override env

/-- Write the user's configuration file; gives its path. -/
def save (c : Config) (env : Environment) (h : Host) : Except ConfigError String × Host :=
  match userPath env with
  | .error e => (.error e, h)
  | .ok path =>
    match c.toFile h path with
    | (.ok _, h') => (.ok path, h')
    | (.error e, h') => (.error e, h')

end Config

end ProofHost
