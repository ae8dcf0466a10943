/-!
# Diagnostics

What the XML parser, the grammar compiler and the grammar validator report. Whether diagnostics fail
an operation depends on the operation: compiling a grammar tolerates none, while reading and
validating a document tolerates warnings.
-/
namespace Schematron

/-- How serious a diagnostic is. -/
inductive Severity where
  | warning
  | error
  | fatal
  deriving DecidableEq, Repr, Inhabited

namespace Severity

/-- Whether the severity is more than a warning. -/
def isError : Severity → Bool
  | .warning => false
  | _ => true

def name : Severity → String
  | .warning => "warning"
  | .error => "error"
  | .fatal => "fatal"

def ofName? : String → Option Severity
  | "warning" => some .warning
  | "error" => some .error
  | "fatal" => some .fatal
  | _ => none

def rank : Severity → Nat
  | .warning => 0
  | .error => 1
  | .fatal => 2

end Severity

/-- One diagnostic. -/
structure Diagnostic where
  severity : Severity
  message : String
  file : Option String := none
  line : Option Nat := none
  column : Option Nat := none
  deriving DecidableEq, Repr, Inhabited

namespace Diagnostic

/-- An error at no known place. -/
def ofError (message : String) : Diagnostic := { severity := .error, message := message }

/-- The place, if a file or a line is known: `file: line: 3 column: 9` without its unknown parts. -/
def location (d : Diagnostic) : Option String :=
  if d.file.isNone && d.line.isNone then none
  else
    let line := match d.line with
      | some n => ": line: " ++ toString n
      | none => ""
    let column := match d.column with
      | some n => " column: " ++ toString n
      | none => ""
    some (d.file.getD "-" ++ line ++ column)

def render (d : Diagnostic) : String :=
  match d.location with
  | some l => d.message ++ " (" ++ l ++ ")"
  | none => d.message

/-- Whether one of the diagnostics is more than a warning. -/
def anyError (ds : List Diagnostic) : Bool := ds.any (·.severity.isError)

end Diagnostic

/-- How an operation treats diagnostics. -/
inductive Tolerance where
  /-- Only errors fail it. -/
  | warnings
  /-- Any diagnostic fails it. -/
  | nothing
  deriving DecidableEq, Repr, Inhabited

def Tolerance.fails : Tolerance → List Diagnostic → Bool
  | .warnings, ds => Diagnostic.anyError ds
  | .nothing, ds => ! ds.isEmpty

end Schematron
