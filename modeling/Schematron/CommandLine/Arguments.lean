import Schematron.Output
import Schematron.Text.Blank

/-!
# Arguments

What a command line asks for: a schema, what to validate, and settings that go before those of any
file.
-/
namespace Schematron

/-- The arguments of the command. A setting that is not given is left to the configuration. -/
structure Arguments where
  /-- The location of the schema. -/
  schema : String
  /-- The file or directory to validate; without one, a list of files is read. -/
  input : Option String := none
  /-- Which files of a directory to validate, as given. -/
  extensions : List String := []
  phase : Option String := none
  saveReport : Bool := false
  quiet : Bool := false
  progress : Bool := false
  threads : Option Nat := none
  verbose : Bool := false
  format : Option OutputFormat := none
  config : Option String := none
  cacheDirectory : Option String := none
  cacheHours : Option Nat := none
  noCache : Bool := false
  timeout : Option Nat := none
  retries : Option Nat := none
  exclude : List String := []
  deriving DecidableEq, Repr, Inhabited

def Text.commaParts (s : String) : List String := s.splitOn ","

/-- The extensions asked for, without blanks and dots before them. -/
def Arguments.extensionNames (a : Arguments) : List String :=
  let names := (a.extensions.flatMap Text.commaParts).map fun s =>
    String.ofList ((Text.trimmed s).toList.dropWhile (· == '.'))
  names.filter (! ·.isEmpty)

def Arguments.members (a : Arguments) : List (String × Json) :=
  [("schema", .str a.schema), ("input", .optStr a.input), ("extensions", .strs a.extensions),
    ("phase", .optStr a.phase), ("svrl", .bool a.saveReport), ("quiet", .bool a.quiet),
    ("progress", .bool a.progress), ("threads", .ofOption .nat a.threads),
    ("verbose", .bool a.verbose), ("format", .optStr (a.format.map (·.name))),
    ("config", .optStr a.config), ("cache_dir", .optStr a.cacheDirectory),
    ("cache_ttl", .ofOption .nat a.cacheHours), ("no_cache", .bool a.noCache),
    ("timeout", .ofOption .nat a.timeout), ("retry_attempts", .ofOption .nat a.retries),
    ("exclude", .strs a.exclude)]

end Schematron
