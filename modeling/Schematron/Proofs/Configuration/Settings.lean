import Schematron.Configuration.Load
import Schematron.Proofs.Sequencing

/-!
# Settings one by one

A configuration is a value for each setting (`Configuration.ext_value`), and a layer is what a file,
the environment or the command line says about each setting. Each of the three ways to put a layer
over a configuration replaces the values of the settings that the layer sets, and no others.
-/
namespace Schematron.Configuration
open Schematron.Json

inductive Setting where
  | threads
  | phase
  | saveReport
  | cacheDirectory
  | cacheHours
  | memoryEntries
  | memorySeconds
  | caching
  | timeout
  | retries
  | retryDelay
  | format
  | verbose
  | quiet
  | progress
  | extensions
  | exclude
  deriving DecidableEq, Repr

namespace Setting

def Value : Setting → Type
  | .threads => Option Nat
  | .phase => Option String
  | .cacheDirectory => String
  | .format => OutputFormat
  | .saveReport | .caching | .verbose | .quiet | .progress => Bool
  | .cacheHours | .memoryEntries | .memorySeconds | .timeout | .retries | .retryDelay => Nat
  | .extensions | .exclude => List String

end Setting

def value (c : Configuration) : (s : Setting) → s.Value
  | .threads => c.validation.threads
  | .phase => c.validation.phase
  | .saveReport => c.validation.saveReport
  | .cacheDirectory => c.caching.directory
  | .cacheHours => c.caching.hours
  | .memoryEntries => c.caching.memoryEntries
  | .memorySeconds => c.caching.memorySeconds
  | .caching => c.caching.enabled
  | .timeout => c.downloading.timeout
  | .retries => c.downloading.retries
  | .retryDelay => c.downloading.retryDelay
  | .format => c.display.format
  | .verbose => c.display.verbose
  | .quiet => c.display.quiet
  | .progress => c.display.progress
  | .extensions => c.selection.extensions
  | .exclude => c.selection.exclude

/-- What one source says about each setting, if it sets it. -/
abbrev Layer := (s : Setting) → Option s.Value

def named? (names : List String) : Option (List String) :=
  if names.isEmpty then none else some names

inductive Section where
  | validation
  | cache
  | network
  | output
  | files
  deriving DecidableEq, Repr

namespace Section

def name : Section → String
  | .validation => "validation"
  | .cache => "cache"
  | .network => "network"
  | .output => "output"
  | .files => "files"

def names : List String := ["validation", "cache", "network", "output", "files"]

end Section

namespace Setting

/-- The section in which a file has a setting, and its name there. -/
def place : Setting → Section × String
  | .threads => (.validation, "threads")
  | .phase => (.validation, "phase")
  | .saveReport => (.validation, "save_report")
  | .cacheDirectory => (.cache, "directory")
  | .cacheHours => (.cache, "ttl_hours")
  | .memoryEntries => (.cache, "max_memory_entries")
  | .memorySeconds => (.cache, "memory_ttl_seconds")
  | .caching => (.cache, "enabled")
  | .timeout => (.network, "timeout_seconds")
  | .retries => (.network, "retry_attempts")
  | .retryDelay => (.network, "retry_delay_ms")
  | .format => (.output, "format")
  | .verbose => (.output, "verbose")
  | .quiet => (.output, "quiet")
  | .progress => (.output, "progress")
  | .extensions => (.files, "extensions")
  | .exclude => (.files, "exclude")

end Setting

section
variable {α : Type} {read : Json → Option α} {a b : α} {x : Option α} {field : Option Json}

end

variable {d : Dialect} {j : Json} {part : Option Json} {fields : List (Option Json)}

namespace Setting

def environmentName? : Setting → Option String
  | .threads => some "SCHEMANON_THREADS"
  | .phase => some "SCHEMANON_PHASE"
  | .cacheDirectory => some "SCHEMANON_CACHE_DIR"
  | .cacheHours => some "SCHEMANON_CACHE_TTL"
  | .timeout => some "SCHEMANON_TIMEOUT"
  | .retries => some "SCHEMANON_RETRY_ATTEMPTS"
  | .quiet => some "SCHEMANON_QUIET"
  | .format => some "SCHEMANON_FORMAT"
  | .extensions => some "SCHEMANON_EXTENSIONS"
  | .saveReport | .memoryEntries | .memorySeconds | .caching | .retryDelay | .verbose | .progress
  | .exclude => none

/-- What the value of a variable sets, if it can be read; the empty phase is none. -/
def ofVariable? : (s : Setting) → String → Option s.Value
  | .threads => fun v => (Environment.number? (Number.capacity 64) v).map some
  | .phase => fun v => some (if v.isEmpty then none else some v)
  | .cacheDirectory => some
  | .cacheHours | .timeout => Environment.number? (Number.capacity 64)
  | .retries => Environment.number? (Number.capacity 32)
  | .quiet => Environment.truth?
  | .format => Environment.format?
  | .extensions => fun v => some (Environment.extensions v)
  | .saveReport | .memoryEntries | .memorySeconds | .caching | .retryDelay | .verbose | .progress
  | .exclude => fun _ => none

end Setting

def variableOf (env : Environment) (s : Setting) : Option String :=
  s.environmentName?.bind env.value?

def Layer.ofEnvironment (env : Environment) : Layer := fun s =>
  (variableOf env s).bind s.ofVariable?

/-- Every variable that sets something has a value that can be read. -/
def IsReadable (env : Environment) : Prop :=
  ∀ s v, variableOf env s = some v → (s.ofVariable? v).isSome = true

open Sequencing

section
variable {α : Type} {env : Environment} {name : String} {read : String → Option α}

end

def raised? {α : Type} (flag : Bool) (a : α) : Option α := if flag then some a else none

/-- What the command line says about a setting. A flag that is not raised sets nothing, and neither
does an empty list; `-q` and `-v` set both of the settings that exclude each other. -/
def Layer.ofArguments (a : Arguments) : Layer
  | .threads => a.threads.map some
  | .phase => a.phase.map some
  | .saveReport => raised? a.saveReport true
  | .cacheDirectory => a.cacheDirectory
  | .cacheHours => a.cacheHours
  | .caching => raised? a.noCache false
  | .timeout => a.timeout
  | .retries => a.retries
  | .format => a.format
  | .verbose => (raised? a.quiet false).or (raised? a.verbose true)
  | .quiet => (raised? a.quiet true).or (raised? a.verbose false)
  | .progress => raised? a.progress true
  | .extensions => named? a.extensionNames
  | .exclude => named? a.exclude
  | .memoryEntries | .memorySeconds | .retryDelay => none

end Schematron.Configuration
