import Schematron.Configuration.Basic
import Schematron.Configuration.Error
import Schematron.Files.Path
import Schematron.Json.Decode
import Schematron.Json.Parser
import Schematron.Number.Basic
import Schematron.Toml.Parser

/-!
# Configuration files

Settings are read from JSON or TOML. A setting that a file leaves out has its standard value, and a
member that no setting has is passed over.
-/
namespace Schematron.Configuration
open Schematron.Json

/-- What two languages for records disagree on. -/
structure Dialect where
  /-- Whether an array for a record may have more items than the record has fields. -/
  extraItems : Bool
  /-- What may stand beside the name of a choice that is written as an object. -/
  isUnit : Json → Bool

def Dialect.json : Dialect := ⟨false, Json.isNull⟩

def Dialect.toml : Dialect where
  extraItems := true
  isUnit
    | .obj ms => ms.isEmpty
    | .arr js => js.isEmpty
    | _ => false

namespace Dialect

/-- The fields of a record; any of them may be missing. -/
def fields? (d : Dialect) (names : List String) (j : Json) : Option (List (Option Json)) :=
  match j with
  | .arr js => (Json.arr (if d.extraItems then js.take names.length else js)).fields? names true
  | j => j.fields? names true

def format? (d : Dialect) : Json → Option OutputFormat
  | .str s => OutputFormat.ofName? s
  | .obj [(s, j)] => if d.isUnit j then OutputFormat.ofName? s else none
  | _ => none

def validation? (d : Dialect) (j : Json) : Option Validation := do
  match ← d.fields? ["threads", "phase", "save_report"] j with
  | [threads, phase, saveReport] =>
    return ⟨← optional? (natBelow? (Number.capacity 64)) threads, ← optional? str? phase,
      ← withDefault? bool? false saveReport⟩
  | _ => none

def caching? (d : Dialect) (standard : Caching) (j : Json) : Option Caching := do
  let count := natBelow? (Number.capacity 64)
  match ← d.fields? ["directory", "ttl_hours", "max_memory_entries", "memory_ttl_seconds",
    "enabled"] j with
  | [directory, hours, entries, seconds, enabled] =>
    return ⟨← withDefault? str? standard.directory directory,
      ← withDefault? count standard.hours hours,
      ← withDefault? count standard.memoryEntries entries,
      ← withDefault? count standard.memorySeconds seconds,
      ← withDefault? bool? standard.enabled enabled⟩
  | _ => none

def downloading? (d : Dialect) (j : Json) : Option Downloading := do
  let standard : Downloading := {}
  match ← d.fields? ["timeout_seconds", "retry_attempts", "retry_delay_ms"] j with
  | [timeout, retries, delay] =>
    return ⟨← withDefault? (natBelow? (Number.capacity 64)) standard.timeout timeout,
      ← withDefault? (natBelow? (Number.capacity 32)) standard.retries retries,
      ← withDefault? (natBelow? (Number.capacity 64)) standard.retryDelay delay⟩
  | _ => none

def display? (d : Dialect) (j : Json) : Option Display := do
  match ← d.fields? ["format", "verbose", "quiet", "progress"] j with
  | [format, verbose, quiet, progress] =>
    return ⟨← withDefault? d.format? .human format, ← withDefault? bool? false verbose,
      ← withDefault? bool? false quiet, ← withDefault? bool? false progress⟩
  | _ => none

def selection? (d : Dialect) (j : Json) : Option Selection := do
  let standard : Selection := {}
  match ← d.fields? ["extensions", "exclude"] j with
  | [extensions, exclude] =>
    return ⟨← withDefault? (list? str?) standard.extensions extensions,
      ← withDefault? (list? str?) standard.exclude exclude⟩
  | _ => none

/-- Reads all sections. -/
def configuration? (d : Dialect) (standard : Configuration) (j : Json) : Option Configuration := do
  match ← d.fields? ["validation", "cache", "network", "output", "files"] j with
  | [validation, caching, downloading, display, selection] =>
    return ⟨← withDefault? d.validation? standard.validation validation,
      ← withDefault? (d.caching? standard.caching) standard.caching caching,
      ← withDefault? d.downloading? standard.downloading downloading,
      ← withDefault? d.display? standard.display display,
      ← withDefault? d.selection? standard.selection selection⟩
  | _ => none

end Dialect

def ofJson? (standard : Configuration) (j : Json) : Option Configuration :=
  Dialect.json.configuration? standard j

def ofJsonText? (standard : Configuration) (text : String) : Option Configuration :=
  (Json.parse? text).bind (ofJson? standard)

def ofTomlText? (standard : Configuration) (text : String) : Option Configuration :=
  (Toml.parse? text).bind (Dialect.toml.configuration? standard)

/-- Reads settings from a text. The extension of the file tells the language; without one, both are
tried. -/
def ofText (standard : Configuration) (extension : Option String) (text : String) :
    Except ConfigurationError Configuration :=
  let orElse := fun (e : ConfigurationError) (c : Option Configuration) =>
    match c with
    | some c => Except.ok c
    | none => .error e
  match extension with
  | some "toml" => orElse .toml (ofTomlText? standard text)
  | some "json" => orElse .json (ofJsonText? standard text)
  | some e => .error (.unknownFormat e)
  | none => orElse .json ((ofTomlText? standard text).or (ofJsonText? standard text))

def ofFile (fs : FileSystem) (directory : String) (standard : Configuration) (path : String) :
    Except ConfigurationError Configuration := do
  let text ← (fs.readText directory path).mapError .io
  ofText standard (Path.extension? path) text

end Schematron.Configuration
