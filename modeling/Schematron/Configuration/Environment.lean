import Schematron.CommandLine.Arguments
import Schematron.Configuration.Basic
import Schematron.Configuration.Error
import Schematron.Files.Path
import Schematron.Number.Basic
import Schematron.Number.Numeral

/-!
# The environment

The variables that set something, and the directories of the user that they tell.
-/
namespace Schematron

abbrev Environment := List (String × String)

namespace Environment

def value? (env : Environment) (name : String) : Option String :=
  (env.find? (·.1 == name)).map (·.2)

/-- A directory of the user: the one that a variable names by an absolute path, else one below the
home directory. -/
def userDirectory? (env : Environment) (name below : String) : Option String :=
  ((env.value? name).filter Path.isAbsolute).or
    (((env.value? "HOME").filter (! ·.isEmpty)).map fun home => Path.join home below)

def configDirectory? (env : Environment) : Option String :=
  (env.userDirectory? "XDG_CONFIG_HOME" ".config").map fun d => Path.join d "schemanon"

def cacheDirectory (env : Environment) : String :=
  Path.join ((env.userDirectory? "XDG_CACHE_HOME" ".cache").getD ".cache") "schemanon"

/-- Reads the value of a variable, if it is set. -/
def read? {α : Type} (env : Environment) (name : String) (read : String → Option α) :
    Except ConfigurationError (Option α) :=
  match env.value? name with
  | none => .ok none
  | some v =>
    match read v with
    | some a => .ok (some a)
    | none => .error (.variableValue name v)

/-- A number below a bound, with blanks around it. -/
def number? (bound : Nat) (v : String) : Option Nat := Numeral.natural? bound (Text.trimmed v)

/-- A truth value, with blanks around it. -/
def truth? (v : String) : Option Bool :=
  match Text.trimmed v with
  | "true" => some true
  | "false" => some false
  | _ => none

/-- A format, whose name may be in capitals. -/
def format? (v : String) : Option OutputFormat := OutputFormat.ofName? v.toLower

/-- Extensions between commas, with blanks around them. -/
def extensions (v : String) : List String :=
  ((Text.commaParts v).map Text.trimmed).filter (! ·.isEmpty)

end Environment

/-- What the environment sets. -/
structure Overrides where
  threads : Option Nat := none
  /-- The phase; the empty one means that there is none. -/
  phase : Option String := none
  cacheDirectory : Option String := none
  cacheHours : Option Nat := none
  timeout : Option Nat := none
  retries : Option Nat := none
  quiet : Option Bool := none
  format : Option OutputFormat := none
  extensions : Option (List String) := none
  deriving DecidableEq, Repr, Inhabited

def Environment.overrides (env : Environment) : Except ConfigurationError Overrides := do
  return {
    threads := ← env.read? "SCHEMANON_THREADS" (number? (Number.capacity 64))
    phase := env.value? "SCHEMANON_PHASE"
    cacheDirectory := env.value? "SCHEMANON_CACHE_DIR"
    cacheHours := ← env.read? "SCHEMANON_CACHE_TTL" (number? (Number.capacity 64))
    timeout := ← env.read? "SCHEMANON_TIMEOUT" (number? (Number.capacity 64))
    retries := ← env.read? "SCHEMANON_RETRY_ATTEMPTS" (number? (Number.capacity 32))
    quiet := ← env.read? "SCHEMANON_QUIET" truth?
    format := ← env.read? "SCHEMANON_FORMAT" format?
    extensions := (env.value? "SCHEMANON_EXTENSIONS").map extensions }

end Schematron
