import Schematron.Batch.Summary
import Schematron.Engine.Engine
import Schematron.Files.System
import Schematron.Streams

/-!
# Batches

Many documents are validated with one engine. Each result is handed on as soon as it and every
earlier one are there, and reports can be saved next to their documents. A report that cannot be
saved is told in a message and leaves the verdict as it is.
-/
namespace Schematron.Batch
variable {D : Type}

/-- How a batch is run. -/
structure Options where
  /-- How many documents are validated at a time; one if this is zero. -/
  threads : Nat := 1
  /-- Whether the report of each document is saved. -/
  saveReports : Bool := false
  deriving DecidableEq, Repr, Inhabited

/-- What a clock shows at the end: how long each document took, by its index, and the batch. -/
structure Timings where
  document : Nat → Duration := fun _ => .zero
  whole : Duration := .zero

/-- What the validation of documents shares and changes. -/
structure State (D : Type) where
  engine : Engine D
  files : FileSystem
  streams : Streams := {}

namespace State

def print (s : State D) (t : Streams) : State D := { s with streams := s.streams ++ t }

/-- Saves a report next to its document. The result tells where it is, or why it is not there. -/
def save (s : State D) (report : Report) (r : FileResult) : FileResult × State D :=
  let target := FileResult.reportTarget r.path
  match s.files.write s.engine.directory target.display (Utf8.encode report.render) with
  | .ok files => ({ r with reportPath := some target }, { s with files })
  | .error e =>
    let reason := target.display ++ ": " ++ (EngineError.io e.message).message
    ({ r with messages := r.messages ++ [.internal ("Could not save report " ++ reason)] },
      s.print { err := "ERR: saving report " ++ reason ++ "\n" })

/-- Turns the outcome for a document into its result, and saves the report if that is asked for. -/
def conclude (s : State D) (saveReports : Bool) (input : InputFile) (duration : Duration) :
    Except EngineError Outcome → FileResult × State D
  | .error e => (.ofError input e duration, s)
  | .ok o =>
    let r := FileResult.ofOutcome input o duration
    match o.report with
    | some report => if saveReports then s.save report r else (r, s)
    | none => (r, s)

def validate (s : State D) (saveReports : Bool) (input : InputFile) (duration : Duration) :
    FileResult × State D :=
  let (outcome, engine) := s.engine.validate (.file input.path.display)
  { s with engine }.conclude saveReports input duration outcome

end State

/-- Validates documents from an index on, each after the one before it. What `handOn` says is
written after each document. -/
def runFrom (options : Options) (timings : Timings) (handOn : Nat → FileResult → Streams) :
    Nat → List InputFile → State D → List FileResult × State D
  | _, [], s => ([], s)
  | n, input :: inputs, s =>
    let (r, s) := s.validate options.saveReports input (timings.document n)
    let (rs, s) := runFrom options timings handOn (n + 1) inputs (s.print (handOn n r))
    (r :: rs, s)

def run (options : Options) (timings : Timings) (handOn : Nat → FileResult → Streams)
    (inputs : List InputFile) (s : State D) : BatchResults × State D :=
  let (rs, s) := runFrom options timings handOn 0 inputs s
  (⟨rs, timings.whole⟩, s)

/-- There is one result for each document, in order. -/
theorem length_runFrom (options : Options) (timings : Timings)
    (handOn : Nat → FileResult → Streams) (n : Nat) (inputs : List InputFile) (s : State D) :
    (runFrom options timings handOn n inputs s).1.length = inputs.length := by
  induction inputs generalizing n s with
  | nil => rfl
  | cons input inputs ih => simp [runFrom, ih]

end Schematron.Batch
