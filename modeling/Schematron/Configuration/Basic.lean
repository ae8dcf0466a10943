import Schematron.Output

/-!
# Configuration

The settings of a run, section by section, with the values that they have when nothing sets them.
-/
namespace Schematron.Configuration

/-- How documents are validated. -/
structure Validation where
  /-- How many documents are validated at a time; one for each processor when unset. -/
  threads : Option Nat := none
  /-- The phase of the rules; the default phase of the schema when unset. -/
  phase : Option String := none
  /-- Whether the report of each document is saved next to it. -/
  saveReport : Bool := false
  deriving DecidableEq, Repr, Inhabited

/-- How downloads are kept. -/
structure Caching where
  directory : String
  /-- How long a download is kept on disk, in hours. -/
  hours : Nat := 24
  /-- How many downloads are kept in memory. -/
  memoryEntries : Nat := 100
  /-- How long a download is kept in memory. -/
  memorySeconds : Nat := 3600
  enabled : Bool := true
  deriving DecidableEq, Repr, Inhabited

/-- How downloads are made. -/
structure Downloading where
  /-- How long an answer is waited for, in seconds. -/
  timeout : Nat := 30
  retries : Nat := 3
  /-- How long the first retry waits, in milliseconds. -/
  retryDelay : Nat := 1000
  deriving DecidableEq, Repr, Inhabited

/-- How results are shown. -/
structure Display where
  format : OutputFormat := .human
  verbose : Bool := false
  quiet : Bool := false
  progress : Bool := false
  deriving DecidableEq, Repr, Inhabited

/-- Which files of a directory are validated. -/
structure Selection where
  extensions : List String := ["xml"]
  exclude : List String := []
  deriving DecidableEq, Repr, Inhabited

end Configuration

/-- The settings of a run. -/
structure Configuration where
  validation : Configuration.Validation := {}
  caching : Configuration.Caching
  downloading : Configuration.Downloading := {}
  display : Configuration.Display := {}
  selection : Configuration.Selection := {}
  deriving DecidableEq, Repr, Inhabited

namespace Configuration

/-- The settings where nothing is set, with a directory for downloads. -/
def standard (cacheDirectory : String) : Configuration := { caching := { directory := cacheDirectory } }

def verbosity (c : Configuration) : Verbosity :=
  if c.display.quiet then .quiet else if c.display.verbose then .verbose else .normal

def toJson (c : Configuration) : Json :=
  .obj [
    ("validation", .obj [("threads", .ofOption .nat c.validation.threads),
      ("phase", .optStr c.validation.phase), ("save_report", .bool c.validation.saveReport)]),
    ("cache", .obj [("directory", .str c.caching.directory), ("ttl_hours", .nat c.caching.hours),
      ("max_memory_entries", .nat c.caching.memoryEntries),
      ("memory_ttl_seconds", .nat c.caching.memorySeconds), ("enabled", .bool c.caching.enabled)]),
    ("network", .obj [("timeout_seconds", .nat c.downloading.timeout),
      ("retry_attempts", .nat c.downloading.retries),
      ("retry_delay_ms", .nat c.downloading.retryDelay)]),
    ("output", .obj [("format", .str c.display.format.name), ("verbose", .bool c.display.verbose),
      ("quiet", .bool c.display.quiet), ("progress", .bool c.display.progress)]),
    ("files", .obj [("extensions", .strs c.selection.extensions),
      ("exclude", .strs c.selection.exclude)])]

end Configuration

end Schematron
