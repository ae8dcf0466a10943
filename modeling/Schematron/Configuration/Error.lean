import Schematron.Files.System

/-!
# Configuration errors

Why there are no settings to run with.
-/
namespace Schematron

/-- Settings that no run can have. -/
inductive ConfigurationFault where
  | noThreads
  | tooManyThreads (count : Nat)
  | noCacheHours
  | noTimeout
  | tooManyRetries
  | verboseAndQuiet
  | noExtensions
  | badExtension (extension : String)
  deriving DecidableEq, Repr, Inhabited

namespace ConfigurationFault

def maxThreads : Nat := 1000

def maxRetries : Nat := 10

def message : ConfigurationFault → String
  | .noThreads => "threads must be at least 1"
  | .tooManyThreads n => "threads must not exceed " ++ toString maxThreads ++ ", got " ++ toString n
  | .noCacheHours => "cache ttl_hours must be at least 1"
  | .noTimeout => "network timeout_seconds must be at least 1"
  | .tooManyRetries => "network retry_attempts must not exceed " ++ toString maxRetries
  | .verboseAndQuiet => "output cannot be both verbose and quiet"
  | .noExtensions => "files.extensions needs at least one entry"
  | .badExtension e => "`" ++ e ++ "` is not a bare file extension"

end ConfigurationFault

/-- Why there are no settings. -/
inductive ConfigurationError where
  | io (reason : FileError)
  /-- A file is not TOML, or does not hold settings. -/
  | toml
  /-- A file is not JSON, or does not hold settings. -/
  | json
  | invalid (fault : ConfigurationFault)
  /-- The value of an environment variable can not be read. -/
  | variableValue (name value : String)
  /-- The name of a file does not say how to read it. -/
  | unknownFormat (extension : String)
  deriving DecidableEq, Repr, Inhabited

namespace ConfigurationError

/-- The error in words; what is wrong inside a file is not told. -/
def message : ConfigurationError → String
  | .io e => "IO error: " ++ e.message
  | .toml => "TOML parsing error"
  | .json => "JSON parsing error"
  | .invalid f => "Configuration validation error: " ++ f.message
  | .variableValue n v => "Environment variable error: Invalid " ++ n ++ " value: " ++ v
  | .unknownFormat e => "Unsupported configuration file format: " ++ e

/-- The cause beneath the error in words, where the error has one of its own. -/
def cause? : ConfigurationError → Option String
  | .io e => some e.message
  | _ => none

end ConfigurationError

end Schematron
