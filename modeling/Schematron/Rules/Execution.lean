import Schematron.Processor
import Schematron.Report.Builder
import Schematron.Rules.Validator
import Schematron.Text.Blank

/-!
# Running a validator

Within a pattern a node fires the first rule whose selection holds it, and the nodes are visited in
the order of the union of all selections. Variables are bound from the outside in: those of the
schema, then those of the pattern, then those of the rule at its node. All patterns, rules and nodes
share one context. Entering a scope binds its variables in that context and notes what they were
bound to; leaving it takes the bindings back in reverse order.
-/
namespace Schematron.Validator
open XPath Report

/-- What an expression is evaluated by: a processor and a document. -/
structure Run (D : Type) where
  processor : Processor D
  document : D
  systemId : String
  validator : Validator

namespace Run
variable {D : Type}

def eval (r : Run D) (env : XPath.Environment) (e : Expression) (node : NodePath) :
    Except EngineError Value :=
  (r.processor.eval r.document env e.source node).mapError .ofXPath

/-- A step of a run: it works in the context that all steps share. -/
abbrev Step (α : Type) := StateT XPath.Environment (Except EngineError) α

def reading {α : Type} (f : XPath.Environment → Except EngineError α) : Step α := fun env => do
  return (← f env, env)

/-- A binding that a scope replaced: the name and what it was bound to, if anything. -/
structure Shadowed where
  name : String
  value : Option Value
  deriving DecidableEq, Repr, Inhabited

/-- Binds one variable to its value at a node and notes what it was bound to. -/
def bindOne (r : Run D) (node : NodePath) (b : Binding) : Step Shadowed := fun env => do
  let previous ← (Processor.lookup env b.name).mapError .ofProcessor
  let v ← r.eval env b.value node
  let env ← (r.processor.bindVariable env b.name v).mapError .ofProcessor
  return (⟨b.name, previous⟩, env)

/-- Enters a scope: binds variables in order, so that each value may use those before it. -/
def enter (r : Run D) (node : NodePath) (bs : List Binding) : Step (List Shadowed) :=
  bs.mapM (r.bindOne node)

def restoreOne (r : Run D) (s : Shadowed) : Step Unit := fun env => do
  let env ← match s.value with
    | some v => (r.processor.bindVariable env s.name v).mapError .ofProcessor
    | none => (Processor.unbindVariable env s.name).mapError .ofProcessor
  return ((), env)

/-- Leaves a scope: outer bindings come back, and names that are new to the scope go away. -/
def leave (r : Run D) (shadowed : List Shadowed) : Step Unit :=
  shadowed.reverse.forM r.restoreOne

def renderPart (r : Run D) (env : XPath.Environment) (node : NodePath) : MessagePart →
    Except EngineError String
  | .text s => .ok s
  | .value e => do return (← r.eval env e node).toText
  | .name none => do return (← r.eval env r.validator.nameOfNode node).toText
  | .name (some path) => do
    match (← r.eval env path node).paths.head? with
    | some target => return (← r.eval env r.validator.nameOfNode target).toText
    | none => return ""

/-- The text of a message, its blanks collapsed. -/
def render (r : Run D) (env : XPath.Environment) (node : NodePath) (parts : List MessagePart) :
    Except EngineError String := do
  return Text.normalizeSpace (String.join (← parts.mapM (r.renderPart env node)))

/-- The node that a finding is about: the first one that the subject selects, or else the node at
hand. -/
def subject (r : Run D) (env : XPath.Environment) (rule : Rule) (test : Test) (node : NodePath) :
    Except EngineError NodePath := do
  match test.subject.or rule.subject with
  | some e => return (← r.eval env e node).paths.head?.getD node
  | none => return node

def diagnosticTexts (r : Run D) (env : XPath.Environment) (node : NodePath) (ids : List String) :
    Except EngineError (List (String × String)) := do
  let texts ← ids.mapM fun id =>
    match r.validator.diagnostic? id with
    | some parts => do return some (id, ← r.render env node parts)
    | none => return none
  return texts.filterMap id

/-- What a test finds if its expression has a value. -/
def findingKind? : TestKind → Bool → Option FindingKind
  | .assertion, false => some .failedAssert
  | .report, true => some .successfulReport
  | _, _ => none

def finding (r : Run D) (env : XPath.Environment) (rule : Rule) (test : Test) (node : NodePath)
    (kind : FindingKind) : Except EngineError Finding := do
  let location ← r.subject env rule test node
  let diagnostics ← r.diagnosticTexts env node test.diagnostics
  let text ← r.render env node test.message
  return {
    kind, location, diagnostics, text
    test := test.test.source, id := test.id, role := test.role, flag := test.flag }

/-- What a test finds at a node, if anything. -/
def runTest (r : Run D) (env : XPath.Environment) (rule : Rule) (node : NodePath) (test : Test) :
    Except EngineError (List Finding) := do
  match findingKind? test.kind (← r.eval env test.test node).toBool with
  | some kind => return [← r.finding env rule test node kind]
  | none => return []

def runTests (r : Run D) (env : XPath.Environment) (rule : Rule) (node : NodePath) :
    Except EngineError (List Finding) := do
  return (← rule.tests.mapM (r.runTest env rule node)).flatten

def runRule (r : Run D) (rule : Rule) (node : NodePath) : Step (List Entry) := do
  let shadowed ← r.enter node rule.lets
  let found ← reading fun env => r.runTests env rule node
  r.leave shadowed
  return .firedRule rule.context rule.id rule.role rule.flag :: found.map .finding

/-- The first rule whose selection holds a node. -/
def claimant? (claims : List (Rule × List NodePath)) (node : NodePath) : Option Rule :=
  (claims.find? fun c => c.2.contains node).map (·.1)

def runNode (r : Run D) (claims : List (Rule × List NodePath)) (node : NodePath) :
    Step (List Entry) :=
  match claimant? claims node with
  | some rule => r.runRule rule node
  | none => return []

def select (r : Run D) (env : XPath.Environment) (e : Expression) :
    Except EngineError (List NodePath) := do
  return (← r.eval env e documentPath).paths

/-- The rules of a pattern, each with the nodes that it selects. -/
def claims (r : Run D) (env : XPath.Environment) (rules : List Rule) :
    Except EngineError (List (Rule × List NodePath)) :=
  rules.mapM fun rule => do return (rule, ← r.select env rule.selection)

def runRules (r : Run D) (p : Pattern) : Step (List Entry) :=
  match p.selection with
  | none => return []
  | some union => do
    let claims ← reading fun env => r.claims env p.rules
    let nodes ← reading fun env => r.select env union
    return (← nodes.mapM (r.runNode claims)).flatten

def runPattern (r : Run D) (p : Pattern) : Step (List Entry) := do
  let shadowed ← r.enter documentPath p.lets
  let found ← r.runRules p
  r.leave shadowed
  return .activePattern p.id p.name r.systemId :: found

def context (r : Run D) : Except EngineError XPath.Environment := do
  let env ← (r.processor.newEnvironment r.document).mapError .ofProcessor
  r.validator.namespaces.foldlM (fun env (pre, uri) =>
    (r.processor.bindNamespace env pre uri).mapError .ofProcessor) env

/-- The entries of all patterns; the variables of the schema stay bound to the end. -/
def runPatterns (r : Run D) : Step (List Entry) := do
  let _ ← r.enter documentPath r.validator.lets
  return (← r.validator.patterns.mapM r.runPattern).flatten

def header (r : Run D) : Header where
  title := r.validator.title
  schemaVersion := r.validator.schemaVersion
  phase := r.validator.phase
  namespaces := r.validator.namespaces

def report (r : Run D) : Except EngineError Report := do
  let env ← r.context
  return ofEntries r.header (← r.runPatterns.run' env)

end Run

end Schematron.Validator
