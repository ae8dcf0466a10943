import Schematron.Error
import Schematron.Rules.Selection
import Schematron.Rules.Validator

/-!
# Compilation

Turns an expanded schema tree into a validator. The phase decides which patterns are active; only
their expressions are compiled. The compiler runs in any monad with errors, so that whoever supplies
the XPath compiler may also watch which expressions it is given.
-/
namespace Schematron.Compilation
open Xml

/-- The phase in which every pattern is active. -/
def allPhases : String := "#ALL"

def defaultPhase : String := "#DEFAULT"

section
variable {m : Type → Type} [Monad m] [MonadExceptOf TransformError m] (check : String → m Unit)

def expression (source : String) : m Expression := do
  check source
  return ⟨source⟩

/-- Compiles an expression if there is one. -/
def expression? : Option String → m (Option Expression)
  | some source => some <$> expression check source
  | none => pure none

/-- An attribute that must be there. -/
def need (cause : TransformError) : Option String → m String
  | some value => pure value
  | none => throw cause

def binding (e : Element) : m Binding := do
  let name ← need (.malformed "sch:let without @name") (e.attr "name")
  let value ← need (.unsupported ("sch:let `" ++ name ++ "` without @value")) (e.attr "value")
  return ⟨name, ← expression check value⟩

def bindings (e : Element) : m (List Binding) :=
  (e.childrenNamed schematronUri "let").mapM (binding check)

mutual

def part : Node → m (List MessagePart)
  | .text s => pure [.text s]
  | .element t cs => do
    if t.name.is schematronUri "value-of" then
      let select ← need (.malformed "sch:value-of without @select") (t.attr "select")
      return [.value (← expression check select)]
    else if t.name.is schematronUri "name" then
      return [.name (← expression? check (t.attr "path"))]
    else parts cs

/-- Compiles a message; markup without a meaning of its own gives its text. -/
def parts : List Node → m (List MessagePart)
  | [] => pure []
  | n :: ns => do return (← part n) ++ (← parts ns)

end

def testKind? (e : Element) : Option TestKind :=
  if e.is schematronUri "assert" then some .assertion
  else if e.is schematronUri "report" then some .report
  else none

def test (kind : TestKind) (e : Element) : m Test := do
  let source ← need (.malformed (e.name.render ++ " without @test")) (e.attr "test")
  let test ← expression check source
  let subject ← expression? check (e.attr "subject")
  let message ← parts check e.children
  return {
    kind, test, subject, message
    id := e.attr "id", role := e.attr "role", flag := e.attr "flag"
    diagnostics := (e.attr "diagnostics").elim [] Text.words }

def tests (es : List Element) : m (List Test) :=
  (es.filterMap fun e => (testKind? e).map fun k => (k, e)).mapM fun (k, e) => test check k e

def rule (e : Element) : m Rule := do
  let context ← need (.malformed "sch:rule without @context") (e.attr "context")
  let tests ← tests check e.elements
  let selection ← expression check (Selection.ofContext context)
  let subject ← expression? check (e.attr "subject")
  let lets ← bindings check e
  return {
    context, selection, subject, lets, tests
    id := e.attr "id", role := e.attr "role", flag := e.attr "flag" }

/-- The union of selections; none without any. -/
def unionOf : List String → Option String
  | [] => none
  | s :: ss => some (" | ".intercalate (s :: ss))

def titleOf (e : Element) : Option String :=
  (e.firstChild schematronUri "title").map fun t => Text.normalizeSpace t.text

def pattern (e : Element) : m Pattern := do
  let rules ← (e.childrenNamed schematronUri "rule").mapM (rule check)
  let selection ← expression? check (unionOf (rules.map (·.selection.source)))
  let lets ← bindings check e
  return { id := e.attr "id", name := titleOf e, lets, rules, selection }

def namespaceBinding (e : Element) : m (String × String) :=
  match e.attr "prefix", e.attr "uri" with
  | some pre, some uri => pure (pre, uri)
  | _, _ => throw (.malformed "sch:ns requires @prefix and @uri")

def diagnostic (e : Element) : m (String × List MessagePart) := do
  let id ← need (.malformed "sch:diagnostic without @id") (e.attr "id")
  return (id, ← parts check e.children)

/-- The phase to compile for: the one asked for, or else the schema's default. -/
def requestedPhase (schema : Element) (asked : Option String) : Option String :=
  (asked.filter fun p => ! p.isEmpty && p != defaultPhase).or (schema.attr "defaultPhase")

/-- The declaration of a phase that is not the phase of all patterns. -/
def phase? (schema : Element) (asked : Option String) : m (Option (String × Element)) :=
  match (requestedPhase schema asked).filter (· != allPhases) with
  | none => pure none
  | some id =>
    match (schema.childrenNamed schematronUri "phase").find? (·.attr "id" == some id) with
    | some e => pure (some (id, e))
    | none => throw (.unknownPhase id)

def activeIds (phase : Element) : List String :=
  (phase.childrenNamed schematronUri "active").filterMap (·.attr "pattern")

def isActive (phase : Option (String × Element)) (e : Element) : Bool :=
  phase.all fun (_, p) => (e.attr "id").any (activeIds p).contains

def phaseBindings : Option (String × Element) → m (List Binding)
  | some (_, e) => bindings check e
  | none => pure []

/-- The first diagnostic that a test asks for and the schema does not have. -/
def missingDiagnostic? (patterns : List Pattern) (diagnostics : List (String × List MessagePart)) :
    Option String :=
  let asked := patterns.flatMap fun p => p.rules.flatMap fun r => r.tests.flatMap (·.diagnostics)
  asked.find? fun id => ! diagnostics.any (·.1 == id)

def schema (asked : Option String) (e : Element) : m Validator := do
  unless e.is schematronUri "schema" do
    throw (.malformed ("expected sch:schema, found " ++ e.name.render))
  let namespaces ← (e.childrenNamed schematronUri "ns").mapM namespaceBinding
  let schemaLets ← bindings check e
  let phase ← phase? e asked
  let phaseLets ← phaseBindings check phase
  let active := (e.childrenNamed schematronUri "pattern").filter (isActive phase)
  let patterns ← active.mapM (pattern check)
  let groups := e.childrenNamed schematronUri "diagnostics"
  let diagnostics ← (groups.flatMap (·.childrenNamed schematronUri "diagnostic")).mapM
    (diagnostic check)
  if let some id := missingDiagnostic? patterns diagnostics then
    throw (.malformed ("unknown diagnostic `" ++ id ++ "`"))
  let nameOfNode ← expression check "name()"
  return {
    title := titleOf e
    schemaVersion := e.attr "schemaVersion"
    phase := phase.elim allPhases (·.1)
    namespaces
    lets := schemaLets ++ phaseLets
    patterns, diagnostics, nameOfNode }

end

end Schematron.Compilation
