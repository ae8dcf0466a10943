import Schematron.Error
import Schematron.Message

/-!
# Validation runs

The state of validating one document. Messages of a report are taken over when they are first asked
for; a finished run is an outcome, which no longer changes.
-/
namespace Schematron

/-- Where a run is, or where it stopped. -/
inductive RunState where
  | init
  | grammarPhase
  | assertionPhase
  | done
  /-- The engine itself failed. -/
  | aborted
  deriving DecidableEq, Repr, Inhabited

def RunState.name : RunState → String
  | .init => "init"
  | .grammarPhase => "grammar_phase"
  | .assertionPhase => "assertion_phase"
  | .done => "done"
  | .aborted => "aborted"

/-- The verdict of validating a document against a grammar. -/
structure GrammarVerdict where
  valid : Bool
  diagnostics : List Diagnostic
  deriving Repr, Inhabited

/-- The result of validating a document. -/
structure Outcome where
  document : String
  valid : Bool
  state : RunState
  messages : List Message
  report : Option Report
  deriving Repr, Inhabited

namespace Outcome

def errors (o : Outcome) : Nat := (o.messages.filter (·.isError)).length

def warnings (o : Outcome) : Nat := (o.messages.filter (! ·.isError)).length

/-- The outcome as members of a JSON object, where the report is a text. -/
def members (o : Outcome) : List (String × Json) :=
  [("document", .str o.document), ("valid", .bool o.valid), ("state", .str o.state.name),
    ("errors", .nat o.errors), ("warnings", .nat o.warnings),
    ("messages", .arr (o.messages.map (·.toJson))), ("report", .ofOption (.str ·.render) o.report)]

end Outcome

/-- The state of validating a document. -/
structure ValidationRun where
  document : String
  state : RunState := .init
  valid : Bool := true
  messages : List Message := []
  /-- A report whose messages have not been taken over. -/
  pending : Option Report := none
  /-- A report whose messages have been taken over. -/
  retained : Option Report := none
  deriving Repr, Inhabited

namespace ValidationRun

def enter (r : ValidationRun) (s : RunState) : ValidationRun := { r with state := s }

/-- Records diagnostics; an error among them makes the document invalid. -/
def record (r : ValidationRun) (ds : List Diagnostic) : ValidationRun :=
  { r with
    messages := r.messages ++ ds.map Message.ofDiagnostic
    valid := r.valid && ! Diagnostic.anyError ds }

/-- Records a verdict; a rejection without an error still makes the document invalid. -/
def recordGrammar (r : ValidationRun) (v : GrammarVerdict) : ValidationRun :=
  let r := r.record v.diagnostics
  if ! v.valid && r.valid then
    r.record [.ofError "document does not conform to the grammar"]
  else r

def abort (r : ValidationRun) (e : EngineError) : ValidationRun :=
  { r with messages := r.messages ++ [.internal e.message], valid := false, state := .aborted }

def setReport (r : ValidationRun) (report : Report) : ValidationRun :=
  { r with valid := r.valid && report.isValid, pending := some report }

def collect (r : ValidationRun) : ValidationRun :=
  match r.pending with
  | some report =>
    { r with
      messages := r.messages ++ Message.ofReport report
      pending := none
      retained := some report }
  | none => r

def finish (r : ValidationRun) : Outcome :=
  let r := r.collect
  ⟨r.document, r.valid, r.state, r.messages, r.retained⟩

end ValidationRun

end Schematron
