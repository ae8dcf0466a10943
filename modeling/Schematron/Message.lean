import Schematron.Diagnostic
import Schematron.Json.Decode
import Schematron.Number.Basic
import Schematron.Report.Basic
import Schematron.Text.Blank

/-!
# Messages

What a user is told about a document: the diagnostics of parsing and grammar validation, the failed
assertions of the report, and failures of the engine itself. `Message.ofReport` gives one message
for each failed assertion, with the context and the severity of the last rule fired before it.
-/
namespace Schematron

/-- One finding about a document. -/
structure Message where
  isError : Bool
  context : Option String := none
  test : Option String := none
  location : Option String := none
  text : String
  deriving DecidableEq, Repr, Inhabited

namespace Message

def ofDiagnostic (d : Diagnostic) : Message :=
  { isError := d.severity.isError, location := d.location, text := Text.trimmed d.message }

def internal (text : String) : Message := { isError := true, text := text }

def severity (m : Message) : String := if m.isError then "ERROR" else "WARNING"

def render (m : Message) : String :=
  m.severity ++ (match m.location with
    | some l => " at " ++ l
    | none => "") ++ ": " ++ m.text

def nodeWords (n : Xml.Node) : List String := Text.words n.stringValue

/-- The words of all children, with one space between neighbours. -/
def entryText (e : Xml.Element) : String := " ".intercalate (e.children.flatMap nodeWords)

def ofFailedAssert (rule : Option Xml.Element) (e : Xml.Element) : Message where
  isError := rule.bind (·.attr "role") != some warningRole
  context := rule.bind (·.attr "context")
  test := e.attr "test"
  location := e.attr "location"
  text := entryText e

/-- The messages of entries, where `rule` is the last rule that fired. -/
def ofEntries (rule : Option Xml.Element) : List Xml.Element → List Message
  | [] => []
  | e :: es =>
    if Report.isFiredRule e then ofEntries (some e) es
    else if Report.isFailedAssert e then ofFailedAssert rule e :: ofEntries rule es
    else ofEntries rule es

/-- The failed assertions of a report, in document order. -/
def ofReport (r : Report) : List Message := ofEntries none r.root.elements

def toJson (m : Message) : Json :=
  .obj [("is_error", .bool m.isError), ("context", .optStr m.context), ("test", .optStr m.test),
    ("location", .optStr m.location), ("text", .str m.text)]

/-- Reads a message; the places that are not known may be missing. -/
def ofJson? (j : Json) : Option Message := do
  match ← j.fields? ["is_error", "context", "test", "location", "text"] false with
  | [isError, context, test, location, text] =>
    return {
      isError := ← Json.required? Json.bool? isError
      context := ← Json.optional? Json.str? context
      test := ← Json.optional? Json.str? test
      location := ← Json.optional? Json.str? location
      text := ← Json.required? Json.str? text }
  | _ => none

end Message

/-- Reads a diagnostic; the parts of its place may be missing. -/
def Diagnostic.ofJson? (j : Json) : Option Diagnostic := do
  match ← j.fields? ["severity", "message", "file", "line", "column"] false with
  | [severity, message, file, line, column] =>
    return {
      severity := ← Json.required? (Json.choice? Severity.ofName?) severity
      message := ← Json.required? Json.str? message
      file := ← Json.optional? Json.str? file
      line := ← Json.optional? (Json.natBelow? (Number.capacity 32)) line
      column := ← Json.optional? (Json.natBelow? (Number.capacity 32)) column }
  | _ => none

def Diagnostic.toJson (d : Diagnostic) : Json :=
  .obj [("severity", .str d.severity.name), ("message", .str d.message), ("file", .optStr d.file),
    ("line", .ofOption .nat d.line), ("column", .ofOption .nat d.column)]

end Schematron
