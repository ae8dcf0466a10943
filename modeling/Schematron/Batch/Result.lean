import Schematron.Engine.Run
import Schematron.Files.Name
import Schematron.Number.Basic
import Schematron.Time.Duration

/-!
# Results

What is known of one document after it has been validated. A result is written as one JSON object,
unless its path or the path of its report is not text.
-/
namespace Schematron

/-- The verdict on a document. -/
inductive Verdict where
  | valid
  | invalid (errors warnings : Nat)
  /-- The engine failed. -/
  | failed (message : String)
  deriving DecidableEq, Repr, Inhabited

namespace Verdict

def isValid : Verdict → Bool
  | .valid => true
  | _ => false

def isInvalid : Verdict → Bool
  | .invalid .. => true
  | _ => false

/-- Whether there is no answer. -/
def isFailed : Verdict → Bool
  | .failed _ => true
  | _ => false

def members : Verdict → List (String × Json)
  | .valid => [("status", .str "valid")]
  | .invalid e w => [("status", .str "invalid"), ("errors", .nat e), ("warnings", .nat w)]
  | .failed m => [("status", .str "error"), ("message", .str m)]

/-- The name of a verdict, which may also be written as a number. -/
def statusName? : Json → Option String
  | .str s => some s
  | .int 0 => some "valid"
  | .int 1 => some "invalid"
  | .int 2 => some "error"
  | _ => none

def ofMembers? (ms : List (String × Json)) : Option Verdict := do
  let field := Json.member? ms
  match ← Json.required? statusName? (← field "status") with
  | "valid" => return .valid
  | "invalid" =>
    let count := Json.required? (Json.natBelow? (Number.capacity 64))
    return .invalid (← count (← field "errors")) (← count (← field "warnings"))
  | "error" => return .failed (← Json.required? Json.str? (← field "message"))
  | _ => none

end Verdict

/-- The result for one document. -/
structure FileResult where
  path : FilePath
  size : Nat
  verdict : Verdict
  duration : Duration
  messages : List Message
  /-- Where the report was saved. -/
  reportPath : Option FilePath := none
  deriving DecidableEq, Repr, Inhabited

namespace FileResult

/-- The result of a document that the engine could not validate. -/
def ofError (input : InputFile) (e : EngineError) (duration : Duration) : FileResult where
  path := input.path
  size := input.size
  verdict := .failed e.message
  duration := duration
  messages := [.internal e.message]

def ofOutcome (input : InputFile) (o : Outcome) (duration : Duration) : FileResult where
  path := input.path
  size := input.size
  verdict := if o.valid then .valid else .invalid o.errors o.warnings
  duration := duration
  messages := o.messages

/-- Where the report of a document is saved: next to the document. -/
def reportTarget (input : FilePath) : FilePath := input.extend ".svrl"

/-- A path as JSON, if it is text. -/
def pathJson? (p : FilePath) : Option Json := p.text?.map .str

/-- The result as a JSON object, if its paths are text. -/
def toJson? (r : FileResult) : Option Json := do
  let path ← pathJson? r.path
  let report ← match r.reportPath with
    | some p => pathJson? p
    | none => some .null
  return .obj ([("path", path), ("size", .nat r.size)] ++ r.verdict.members ++
    [("duration", r.duration.toJson), ("messages", .arr (r.messages.map (·.toJson))),
      ("report_path", report)])

/-- Reads a result; only an object stands for one. -/
def ofJson? : Json → Option FileResult
  | .obj ms => do
    let field := Json.member? ms
    return {
      path := .ofText (← Json.required? Json.str? (← field "path"))
      size := ← Json.required? (Json.natBelow? (Number.capacity 64)) (← field "size")
      duration := ← Json.required? Duration.ofJson? (← field "duration")
      messages := ← Json.required? (Json.list? Message.ofJson?) (← field "messages")
      reportPath := (← Json.optional? Json.str? (← field "report_path")).map .ofText
      verdict := ← Verdict.ofMembers? ms }
  | _ => none

end FileResult

end Schematron
