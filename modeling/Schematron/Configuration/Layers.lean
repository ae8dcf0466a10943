import Schematron.Configuration.Environment

/-!
# Layers of settings

Settings come from a file, from the environment and from the command line, each of which goes before
those that are named first. A layer changes what it sets and leaves the rest.
-/
namespace Schematron.Configuration

/-- A list, unless it is empty. -/
def unlessEmpty {α : Type} (as rest : List α) : List α := if as.isEmpty then rest else as

/-- The settings of a file over others. A file that leaves out a setting of the cache, the network or
the output sets it to its standard value. -/
def withFile (c file : Configuration) : Configuration where
  validation := {
    threads := file.validation.threads.or c.validation.threads
    phase := file.validation.phase.or c.validation.phase
    saveReport := file.validation.saveReport }
  caching := file.caching
  downloading := file.downloading
  display := file.display
  selection := {
    extensions := unlessEmpty file.selection.extensions c.selection.extensions
    exclude := unlessEmpty file.selection.exclude c.selection.exclude }

def withOverrides (c : Configuration) (o : Overrides) : Configuration where
  validation := { c.validation with
    threads := o.threads.or c.validation.threads
    phase := match o.phase with
      | some p => if p.isEmpty then none else some p
      | none => c.validation.phase }
  caching := { c.caching with
    directory := o.cacheDirectory.getD c.caching.directory
    hours := o.cacheHours.getD c.caching.hours }
  downloading := { c.downloading with
    timeout := o.timeout.getD c.downloading.timeout
    retries := o.retries.getD c.downloading.retries }
  display := { c.display with
    quiet := o.quiet.getD c.display.quiet
    format := o.format.getD c.display.format }
  selection := { c.selection with extensions := o.extensions.getD c.selection.extensions }

/-- The settings of the command line over others. Asking for more output takes back a setting for
less, and the other way round. -/
def withArguments (c : Configuration) (a : Arguments) : Configuration where
  validation := {
    threads := a.threads.or c.validation.threads
    phase := a.phase.or c.validation.phase
    saveReport := c.validation.saveReport || a.saveReport }
  caching := { c.caching with
    directory := a.cacheDirectory.getD c.caching.directory
    hours := a.cacheHours.getD c.caching.hours
    enabled := c.caching.enabled && ! a.noCache }
  downloading := { c.downloading with
    timeout := a.timeout.getD c.downloading.timeout
    retries := a.retries.getD c.downloading.retries }
  display := {
    format := a.format.getD c.display.format
    verbose := (c.display.verbose || a.verbose) && ! a.quiet
    quiet := (c.display.quiet && ! a.verbose) || a.quiet
    progress := c.display.progress || a.progress }
  selection := {
    extensions := unlessEmpty a.extensionNames c.selection.extensions
    exclude := unlessEmpty a.exclude c.selection.exclude }

/-- Whether a text can be an extension: it is not empty and holds no dots and slashes. -/
def isExtension (e : String) : Bool :=
  ! e.isEmpty && e.toList.all fun c => c != '/' && c != '\\' && c != '.'

/-- What is wrong with settings; the first thing if there are more. -/
def fault? (c : Configuration) : Option ConfigurationFault :=
  if c.validation.threads = some 0 then some .noThreads
  else if c.validation.threads.any (ConfigurationFault.maxThreads < ·) then
    c.validation.threads.map .tooManyThreads
  else if c.caching.enabled && c.caching.hours = 0 then some .noCacheHours
  else if c.downloading.timeout = 0 then some .noTimeout
  else if ConfigurationFault.maxRetries < c.downloading.retries then some .tooManyRetries
  else if c.display.verbose && c.display.quiet then some .verboseAndQuiet
  else if c.selection.extensions.isEmpty then some .noExtensions
  else (c.selection.extensions.find? (! isExtension ·)).map .badExtension

/-- The settings, if a run can have them. -/
def check (c : Configuration) : Except ConfigurationError Configuration :=
  match c.fault? with
  | some f => .error (.invalid f)
  | none => .ok c

/-- The settings from all layers, where there need not be a file. -/
def layered (standard : Configuration) (file : Option Configuration) (o : Overrides)
    (a : Arguments) : Except ConfigurationError Configuration :=
  let filed := match file with
    | some f => standard.withFile f
    | none => standard
  check ((filed.withOverrides o).withArguments a)

end Schematron.Configuration
