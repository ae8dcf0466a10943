import Schematron.Batch.Run
import Schematron.Configuration.Derived
import Schematron.Configuration.Load
import Schematron.Files.Discovery
import Schematron.Files.InputList
import Schematron.Loading.Loader
import Schematron.Program.Failure

/-!
# The program

A run of the program loads the configuration and the schema, finds the documents, compiles the schema
and then validates. No document is touched before everything else has succeeded, so a run that fails
leaves the files as they are and writes nothing.
-/
namespace Schematron.Program
variable {D : Type}

/-- What the program finds when it starts. -/
structure Setting (D : Type) where
  processor : Processor D
  world : World
  /-- Whether a client for downloads can be set up. -/
  client : Network.Settings → Except EngineError Unit := fun _ => .ok ()
  environment : Environment := []
  /-- What comes from standard input. -/
  input : Bytes := []
  /-- Whether standard output is a terminal. -/
  terminal : Bool := false
  /-- The number of processors of the machine. -/
  processors : Nat := 1
  timings : Batch.Timings := {}

/-- How a run ends: the exit status or a failure, the files afterwards, and what was written. -/
structure Ending where
  status : Except Failure Nat
  files : FileSystem
  streams : Streams := {}

/-- A batch that is ready to be run. -/
structure Job (D : Type) where
  configuration : Configuration
  inputs : List InputFile
  engine : Engine D

/-- The search for the documents below a path that the arguments name. -/
def searchOf (c : Configuration) : Discovery :=
  { extensions := c.selection.extensions, exclude := c.selection.exclude }

/-- The documents to validate: those that the arguments name, else those of a list. -/
def documents (s : Setting D) (c : Configuration) (a : Arguments) :
    Except Failure (List InputFile) :=
  match a.input with
  | some input => ((searchOf c).run s.world.files s.world.directory input).mapError .search
  | none => do
    let paths ← (InputList.read s.input).mapError .list
    return paths.map (s.world.files.inputFile s.world.directory)

def compile (p : Processor D) (resolver : Inclusion.Resolver) (directory : String)
    (schema : SchemaSource) (phase : Option String) : Except EngineError (Engine D) := do
  let (prepared, engine) := (← Engine.build p resolver directory schema phase).prepare
  prepared
  return engine

/-- The loader that a configuration asks for. For a lifetime in memory of more than a thousand years
the map that keeps downloads cannot be made, and the program stops before it loads the schema; here
such a lifetime is like any other. -/
def loaderOf (c : Configuration) : Loader where
  settings := c.downloads
  policy := c.cachePolicy
  cache := c.cache {}

/-- Does all that comes before the first document. -/
def prepare (s : Setting D) (a : Arguments) : Except Failure (Job D) := do
  let c ← (Configuration.load s.world.files s.world.directory s.environment a).mapError
    .configuration
  (s.client c.downloads).mapError .client
  let (schema, loader) := (loaderOf c).load s.world a.schema
  let schema ← schema.mapError (.schema a.schema)
  let inputs ← documents s c a
  let engine ← (compile s.processor (loader.resolver s.world) s.world.directory schema
    c.validation.phase).mapError (.compilation a.schema)
  return ⟨c, inputs, engine⟩

namespace Job

def output (j : Job D) (terminal : Bool) : Output where
  verbosity := j.configuration.verbosity
  format := j.configuration.display.format
  colours := terminal

/-- A text for standard error that only a verbose run writes. -/
def remark (j : Job D) (text : String) : Streams :=
  if j.configuration.verbosity = .verbose then { err := text } else {}

/-- What is said before the first document. -/
def opening (j : Job D) : String :=
  "INF: schema [" ++ j.engine.schema.systemId ++ "] is " ++ j.engine.kind.language ++ "; " ++
    toString j.inputs.length ++ " document(s) to validate\n"

def handOn (j : Job D) (o : Output) (index : Nat) (r : FileResult) : Streams :=
  (if j.configuration.display.progress then { err := o.progress index j.inputs.length r ++ "\n" }
    else {}) ++ o.file r

/-- How many documents are validated at a time, and whether reports are saved. -/
def options (j : Job D) (processors : Nat) : Batch.Options where
  threads := j.configuration.validation.threads.getD processors
  saveReports := j.configuration.validation.saveReport

/-- The results for all documents, and what validating them has changed and written. -/
def batch (j : Job D) (s : Setting D) : BatchResults × Batch.State D :=
  Batch.run (j.options s.processors) s.timings (j.handOn (j.output s.terminal)) j.inputs
    ⟨j.engine, s.world.files, j.remark j.opening⟩

def run (j : Job D) (s : Setting D) : Ending :=
  let (results, state) := j.batch s
  let state := state.print (j.remark ((j.output s.terminal).summary results))
  { status := .ok results.exitCode, files := state.files, streams := state.streams }

end Job

def run (s : Setting D) (a : Arguments) : Ending :=
  match prepare s a with
  | .error f => { status := .error f, files := s.world.files }
  | .ok j => j.run s

end Schematron.Program
