import Schematron.CommandLine.Usage
import Schematron.Program.Run

/-!
# The command

Reads what a run needs from the machine, runs the program, and writes what comes of it. Documents are
parsed by an XML processor; this command is built without one and says so of every schema.
-/
namespace Schematron.Command

/-- The processor of a command that is built without one. -/
def absentProcessor : Processor Empty where
  parseBytes := fun _ _ => ⟨[.ofError "there is no XML processor"], none⟩
  parseFile := fun _ => ⟨[.ofError "there is no XML processor"], none⟩
  refusal := fun _ => none
  hasContext := nofun
  acceptsNamespace := fun _ _ => true
  acceptsVariable := fun _ => true
  evaluate := nofun
  rootPath := nofun
  line := nofun
  compileGrammar := nofun
  checkGrammar := nofun

def variableNames : List String :=
  ["HOME", "XDG_CONFIG_HOME", "XDG_CACHE_HOME", "SCHEMANON_THREADS", "SCHEMANON_PHASE",
    "SCHEMANON_CACHE_DIR", "SCHEMANON_CACHE_TTL", "SCHEMANON_TIMEOUT",
    "SCHEMANON_RETRY_ATTEMPTS", "SCHEMANON_QUIET", "SCHEMANON_FORMAT", "SCHEMANON_EXTENSIONS"]

def readEnvironment : IO Environment :=
  variableNames.filterMapM fun name => do return (← IO.getEnv name).map fun v => (name, v)

/-- Everything that comes from standard input. -/
partial def readInput (stream : IO.FS.Stream) : IO Bytes := do
  let chunk ← stream.read 65536
  if chunk.isEmpty then return []
  return chunk.toList ++ (← readInput stream)

def readFiles (directory : String) (paths : List String) : IO FileSystem :=
  paths.foldlM (fun files path => do
    let path := Path.join directory path
    match ← (IO.FS.readBinFile path).toBaseIO with
    | .ok data => return files.putDeep (Path.parts path) (.file data.toList)
    | .error _ => return files) (({} : FileSystem).makeDirectories (Path.parts directory))

/-- The paths that a run with some arguments may look at. -/
def pathsOf (environment : Environment) (input : Bytes) (a : Arguments) : List String :=
  let schema := match Location.parse a.schema with
    | .ok (.path p) => [p]
    | _ => []
  let documents := match a.input with
    | some p => [p]
    | none => (InputList.read input).toOption.getD []
  schema ++ documents ++ a.config.toList ++ Configuration.candidates environment

/-- Writes the files that are not as they were. -/
def writeFiles (before after : FileSystem) : IO Unit :=
  after.entries.forM fun (place, e) => do
    match e with
    | .file data =>
      unless before.find? place == some e do
        IO.FS.writeBinFile (Path.ofParts place) ⟨data.toArray⟩
    | _ => return ()

def run (a : Arguments) : IO UInt32 := do
  let directory := toString (← IO.currentDir)
  let environment ← readEnvironment
  let input ← if a.input.isSome then pure [] else readInput (← IO.getStdin)
  let files ← readFiles directory (pathsOf environment input a)
  let world : World := ⟨files, directory, .unreachable, ⟨0, 0⟩⟩
  let ending := Program.run { processor := absentProcessor, world, environment, input } a
  writeFiles files ending.files
  IO.print ending.streams.out
  IO.eprint ending.streams.err
  match ending.status with
  | .ok code => return code.toUInt32
  | .error f =>
    IO.eprintln ("FATAL: " ++ f.message)
    return f.exitCode.toUInt32

end Schematron.Command

open Schematron in
def main (args : List String) : IO UInt32 := do
  match CommandLine.parse args with
  | .ok a => Command.run a
  | .error r =>
    if r.isAnswer then IO.println r.message else IO.eprintln r.message
    return r.exitCode.toUInt32
