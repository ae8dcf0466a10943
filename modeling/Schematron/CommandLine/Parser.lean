import Schematron.CommandLine.Arguments
import Schematron.Number.Basic
import Schematron.Number.Numeral

/-!
# Reading the command line

Arguments are read from left to right. The values of an option or a position are checked when the
next one begins, so that of two mistakes the one that is looked at first is reported. After `--`
every argument takes a position.
-/
namespace Schematron.CommandLine

/-- Why there is nothing to run. -/
inductive Refusal where
  /-- Help was asked for. -/
  | help
  /-- The version was asked for. -/
  | version
  | unknownArgument
  /-- A value is missing, empty, or not one of those that can be chosen. -/
  | invalidValue
  /-- A value is not of its kind. -/
  | malformedValue
  /-- A flag has a value. -/
  | tooManyValues
  /-- An option is given twice, or two options exclude each other. -/
  | conflict
  /-- The schema is missing. -/
  | missingArgument
  deriving DecidableEq, Repr, Inhabited

/-- An option without a value. -/
inductive Flag where
  | saveReport
  | quiet
  | progress
  | verbose
  | noCache
  | help
  | version
  deriving DecidableEq, Repr, Inhabited

/-- An option with a value. -/
inductive Setting where
  | phase
  | threads
  | format
  | config
  | cacheDirectory
  | cacheHours
  | timeout
  | retries
  | exclude
  deriving DecidableEq, Repr, Inhabited

/-- An option. -/
inductive Switch where
  | flag (f : Flag)
  | setting (s : Setting)
  deriving DecidableEq, Repr, Inhabited

def Switch.ofLong? : String → Option Switch
  | "phase" => some (.setting .phase)
  | "svrl" => some (.flag .saveReport)
  | "quiet" => some (.flag .quiet)
  | "progress" => some (.flag .progress)
  | "threads" => some (.setting .threads)
  | "verbose" => some (.flag .verbose)
  | "format" => some (.setting .format)
  | "config" => some (.setting .config)
  | "cache-dir" => some (.setting .cacheDirectory)
  | "cache-ttl" => some (.setting .cacheHours)
  | "no-cache" => some (.flag .noCache)
  | "timeout" => some (.setting .timeout)
  | "retry-attempts" => some (.setting .retries)
  | "exclude" => some (.setting .exclude)
  | "help" => some (.flag .help)
  | "version" => some (.flag .version)
  | _ => none

def Switch.ofLetter? : Char → Option Switch
  | 'p' => some (.setting .phase)
  | 's' => some (.flag .saveReport)
  | 'q' => some (.flag .quiet)
  | 'i' => some (.flag .progress)
  | 't' => some (.setting .threads)
  | 'v' => some (.flag .verbose)
  | 'h' => some (.flag .help)
  | 'V' => some (.flag .version)
  | _ => none

/-- What values are for: an option or a position. -/
inductive Slot where
  | setting (s : Setting)
  | schema
  | input
  | extensions
  deriving DecidableEq, Repr, Inhabited

/-- The position after a position; the last one takes any number of values. -/
def Slot.after : Slot → Slot
  | .schema => .input
  | _ => .extensions

/-- What has been read so far. -/
structure Draft where
  /-- The arguments, where the schema does not count before it is given. -/
  arguments : Arguments := { schema := "" }
  hasSchema : Bool := false
  /-- Values that have not been checked yet. -/
  pending : Option (Slot × List String) := none
  /-- Whether a plain argument is the value of an option. -/
  wantsValue : Bool := false
  /-- The next position. -/
  position : Slot := .schema
  /-- Whether `--` has been read. -/
  onlyPositions : Bool := false
  deriving Repr, Inhabited

/-- A text that is not empty. -/
def filled (v : String) : Except Refusal String :=
  if v.isEmpty then .error .invalidValue else .ok v

def number (bound : Nat) (v : String) : Except Refusal Nat :=
  match Numeral.natural? bound v with
  | some n => .ok n
  | none => .error .malformedValue

/-- Whether an option that may be given once has been given. -/
def isGiven (a : Arguments) : Setting → Bool
  | .phase => a.phase.isSome
  | .threads => a.threads.isSome
  | .format => a.format.isSome
  | .config => a.config.isSome
  | .cacheDirectory => a.cacheDirectory.isSome
  | .cacheHours => a.cacheHours.isSome
  | .timeout => a.timeout.isSome
  | .retries => a.retries.isSome
  | .exclude => false

def assign (a : Arguments) (v : String) : Setting → Except Refusal Arguments
  | .phase => return { a with phase := v }
  | .threads => return { a with threads := ← number (Number.capacity 64) v }
  | .format =>
    match OutputFormat.ofName? v with
    | some f => return { a with format := f }
    | none => throw .invalidValue
  | .config => return { a with config := ← filled v }
  | .cacheDirectory => return { a with cacheDirectory := ← filled v }
  | .cacheHours => return { a with cacheHours := ← number (Number.capacity 64) v }
  | .timeout => return { a with timeout := ← number (Number.capacity 64) v }
  | .retries =>
    match Numeral.signedNatural? (Number.capacity 32) v with
    | some n => return { a with retries := n }
    | none => throw .malformedValue
  | .exclude => return { a with exclude := a.exclude ++ [v] }

def accept (d : Draft) : Slot → List String → Except Refusal Draft
  | _, [] => throw .invalidValue
  | .setting s, v :: _ => do
    if isGiven d.arguments s then throw .conflict
    return { d with arguments := ← assign d.arguments v s }
  | .schema, v :: _ => return { d with arguments := { d.arguments with schema := v }, hasSchema := true }
  | .input, v :: _ => return { d with arguments := { d.arguments with input := ← filled v } }
  | .extensions, vs =>
    return { d with arguments := { d.arguments with extensions := d.arguments.extensions ++ vs } }

/-- Checks the values that have not been checked yet. -/
def settle (d : Draft) : Except Refusal Draft :=
  match d.pending with
  | none => .ok { d with wantsValue := false }
  | some (slot, vs) => accept { d with pending := none, wantsValue := false } slot vs

def await (d : Draft) (slot : Slot) (values : List String) : Except Refusal Draft := do
  return { ← settle d with pending := some (slot, values) }

def attach (d : Draft) (s : Setting) (v : String) : Except Refusal Draft := do
  accept (← settle d) (.setting s) [v]

def raise (d : Draft) (f : Flag) : Except Refusal Draft := do
  let d ← settle d
  let a := d.arguments
  let once := fun (given : Bool) (raised : Arguments) =>
    if given then Except.error Refusal.conflict else .ok { d with arguments := raised }
  match f with
  | .saveReport => once a.saveReport { a with saveReport := true }
  | .quiet => once a.quiet { a with quiet := true }
  | .progress => once a.progress { a with progress := true }
  | .verbose => once a.verbose { a with verbose := true }
  | .noCache => once a.noCache { a with noCache := true }
  | .help => throw .help
  | .version => throw .version

/-- Reads an argument that starts with two hyphens, without them. -/
def long (d : Draft) (arg : List Char) : Except Refusal Draft :=
  let name := arg.takeWhile (· != '=')
  let value := match arg.drop name.length with
    | [] => none
    | _ :: v => some (String.ofList v)
  match Switch.ofLong? (String.ofList name), value with
  | none, _ => .error .unknownArgument
  | some (.flag _), some _ => .error .tooManyValues
  | some (.flag f), none => raise d f
  | some (.setting s), some v => attach d s v
  | some (.setting s), none => do return { ← await d (.setting s) [] with wantsValue := true }

/-- Reads the letters after one hyphen; what follows a letter that takes a value is its value. -/
def letters (d : Draft) : List Char → Except Refusal Draft
  | [] => .ok d
  | c :: cs =>
    match Switch.ofLetter? c with
    | none => .error .unknownArgument
    | some (.flag f) => do letters (← raise d f) cs
    | some (.setting s) =>
      match cs with
      | [] => do return { ← await d (.setting s) [] with wantsValue := true }
      | '=' :: v => attach d s (String.ofList v)
      | v => attach d s (String.ofList v)

def positional (d : Draft) (arg : String) : Except Refusal Draft := do
  match d.pending with
  | some (.extensions, vs) => return { d with pending := some (.extensions, vs ++ [arg]) }
  | _ => return { ← await d d.position [arg] with position := d.position.after }

/-- Reads an argument that is no option. -/
def plain (d : Draft) (arg : String) : Except Refusal Draft :=
  match d.wantsValue, d.pending with
  | true, some (slot, vs) => .ok { d with pending := some (slot, vs ++ [arg]), wantsValue := false }
  | _, _ => positional d arg

def read (d : Draft) (arg : String) : Except Refusal Draft :=
  if d.onlyPositions then positional d arg
  else
    match arg.toList with
    | ['-', '-'] => .ok { d with onlyPositions := true }
    | '-' :: '-' :: cs => long d cs
    | '-' :: c :: cs => letters d (c :: cs)
    | _ => plain d arg

/-- Reads all arguments. -/
def parse (args : List String) : Except Refusal Arguments := do
  let d ← settle (← args.foldlM read {})
  if d.arguments.quiet && d.arguments.verbose then throw .conflict
  if d.hasSchema then return d.arguments else throw .missingArgument

end Schematron.CommandLine
