import Schematron.Configuration.Error
import Schematron.Error

/-!
# Failures

Why the program stops before the first document. Each step that can fail has an exit status, which
is neither that of a batch of valid documents nor that of any other batch.
-/
namespace Schematron.Program

/-- The step that failed, and why. -/
inductive Failure where
  | configuration (error : ConfigurationError)
  /-- The schema at a location cannot be loaded. -/
  | schema (location : String) (error : EngineError)
  /-- A step that the message does not name. -/
  | unnamed (error : EngineError)
  /-- The list of documents cannot be read. -/
  | list (error : FileError)
  /-- The schema at a location cannot be compiled. -/
  | compilation (location : String) (error : EngineError)
  deriving DecidableEq, Repr, Inhabited

namespace Failure

/-- The client for downloads cannot be set up. -/
@[match_pattern]
abbrev client (error : EngineError) : Failure := .unnamed error

/-- The documents cannot be searched for. -/
@[match_pattern]
abbrev search (error : EngineError) : Failure := .unnamed error

def exitCode : Failure → Nat
  | .configuration _ | .unnamed _ | .compilation .. => 2
  | .schema .. => 3
  | .list _ => 16

/-- What the program was at, if that has to be told. -/
def activity? : Failure → Option String
  | .configuration _ => some "loading configuration"
  | .schema l _ => some ("loading schema [" ++ l ++ "]")
  | .unnamed _ => none
  | .list _ => some "reading the list of inputs from STDIN"
  | .compilation l _ => some ("compiling schema [" ++ l ++ "]")

/-- The error in words, and those of the cause beneath it. -/
def reasons : Failure → List String
  | .configuration e => e.message :: e.cause?.toList
  | .schema _ e | .unnamed e | .compilation _ e => e.message :: e.cause?.toList
  | .list e => [e.message]

def message (f : Failure) : String := ": ".intercalate (f.activity?.toList ++ f.reasons)

theorem one_lt_exitCode (f : Failure) : 1 < f.exitCode := by
  cases f <;> simp [exitCode]

end Failure

end Schematron.Program
