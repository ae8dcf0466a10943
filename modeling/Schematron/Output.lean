import Schematron.Batch.Summary
import Schematron.Json.Render
import Schematron.Streams

/-!
# Output

How results are shown: a line of JSON or a block of text for each document, progress lines, and the
summary of a batch.
-/
namespace Schematron

/-- How much is shown. -/
inductive Verbosity where
  /-- No text for documents. -/
  | quiet
  | normal
  /-- The context and the test of each message too. -/
  | verbose
  deriving DecidableEq, Repr, Inhabited

namespace Verbosity

def name : Verbosity → String
  | .quiet => "quiet"
  | .normal => "normal"
  | .verbose => "verbose"

def ofName? : String → Option Verbosity
  | "quiet" => some .quiet
  | "normal" => some .normal
  | "verbose" => some .verbose
  | _ => none

end Verbosity

/-- How results are written. -/
inductive OutputFormat where
  | human
  /-- One JSON object for each document. -/
  | json
  deriving DecidableEq, Repr, Inhabited

namespace OutputFormat

def name : OutputFormat → String
  | .human => "human"
  | .json => "json"

def ofName? : String → Option OutputFormat
  | "human" => some .human
  | "json" => some .json
  | _ => none

end OutputFormat

/-- The colours of text on a terminal. -/
inductive Colour where
  | red
  | green
  | yellow
  deriving DecidableEq, Repr, Inhabited

def Colour.number : Colour → String
  | .red => "31"
  | .green => "32"
  | .yellow => "33"

/-- The lines of a text. Each ends at a line feed, with a carriage return before it or without; the
last one need not. -/
def Text.lines (s : String) : List String :=
  let rec split (line : List Char) : List Char → List (List Char)
    | [] => if line.isEmpty then [] else [line]
    | c :: cs =>
      if c = '\n' then (if line.getLast? = some '\r' then line.dropLast else line) :: split [] cs
      else split (line ++ [c]) cs
  (split [] s.toList).map String.ofList

/-- How results are shown. -/
structure Output where
  verbosity : Verbosity := .normal
  format : OutputFormat := .human
  colours : Bool := false
  deriving DecidableEq, Repr, Inhabited

namespace Output

/-- A text in a colour, where colours are shown. -/
def colour (o : Output) (c : Colour) (s : String) : String :=
  if o.colours then "\x1b[" ++ c.number ++ "m" ++ s ++ "\x1b[0m" else s

/-- A line with a label, where there is something to say. -/
def labelled (label : String) : Option String → String
  | some s => "  " ++ label ++ ": " ++ s ++ "\n"
  | none => ""

def message (o : Output) (m : Message) : String :=
  o.colour (if m.isError then .red else .yellow) m.severity ++
    (match m.location with
    | some l => " at " ++ l
    | none => "") ++ "\n" ++
    (if o.verbosity = .verbose then labelled "context" m.context ++ labelled "test" m.test else "") ++
    String.join ((Text.lines m.text).map fun l => "  " ++ l ++ "\n")

def block (o : Output) (r : FileResult) : String :=
  "schemanon[" ++ r.path.display ++ "]: " ++
    (if r.verdict.isValid then o.colour .green "VALID!" else o.colour .red "INVALID!") ++ "\n" ++
    String.join (r.messages.map o.message) ++ "\n"

/-- What is written for a document: to standard output, and to standard error if that is not
possible. -/
def file (o : Output) (r : FileResult) : Streams :=
  match o.format, o.verbosity with
  | .json, _ =>
    match r.toJson? with
    | some j => { out := j.render ++ "\n" }
    | none =>
      { err := "ERR: serializing result for " ++ r.path.display ++
          ": path contains invalid UTF-8 characters\n" }
  | .human, .quiet => {}
  | .human, _ => { out := o.block r }

/-- The progress line of a document with an index, counted from zero. -/
def progress (o : Output) (index total : Nat) (r : FileResult) : String :=
  "INF: [" ++ toString (index + 1) ++ "/" ++ toString total ++ "]" ++ r.path.display ++ " (" ++
    toString r.size ++ " bytes)" ++
    (if o.verbosity = .quiet then (if r.verdict.isValid then " >> VALID" else " >> INVALID") else "")

def countLine (o : Output) (c : Colour) (label : String) (n : Nat) : String :=
  if n = 0 then "" else "  " ++ o.colour c label ++ " " ++ toString n ++ "\n"

def summary (o : Output) (r : BatchResults) : String :=
  "Validation Summary:\n" ++
    "  Total files: " ++ toString r.total ++ "\n" ++
    "  " ++ o.colour .green "Valid:" ++ " " ++ toString r.valid ++ "\n" ++
    o.countLine .red "Invalid:" r.invalid ++
    o.countLine .yellow "Errors:" r.failed ++
    "  Duration: " ++ r.elapsed.render ++ "\n" ++
    "  Throughput: " ++ Number.fixed 1 r.throughput ++ " files/sec\n"

end Output

end Schematron
