import Schematron.Engine.Detection
import Schematron.Engine.Grammar
import Schematron.Engine.Slot
import Schematron.Rules.Execution
import Schematron.Rules.Schema
import Schematron.Text.Escaped

/-!
# The engine

An engine is made for one schema and validates any number of documents. What it compiles is kept in
slots: the grammar, which only an XML Schema has, and the validator. Every use first makes sure of
the grammar and then of the validator. What is wrong with a document ends up in its outcome; only
what is wrong with the schema is an error.
-/
namespace Schematron
variable {D : Type}

/-- The validation engine of one schema. -/
structure Engine (D : Type) where
  processor : Processor D
  resolver : Inclusion.Resolver
  /-- The current directory, from which relative paths start. -/
  directory : String
  schema : SchemaSource
  phase : Option String
  kind : SchemaKind
  grammar : Slot (Grammar D) := {}
  validator : Slot Validator := {}

def SchemaKind.variant : SchemaKind → String
  | .grammar => "Grammar"
  | .assertions => "Assertions"

namespace Engine

/-- Makes an engine; the schema must be of a known kind. -/
def build (processor : Processor D) (resolver : Inclusion.Resolver) (directory : String)
    (schema : SchemaSource) (phase : Option String) : Except EngineError (Engine D) := do
  return { processor, resolver, directory, schema, phase, kind := ← schema.kind processor }

/-- An engine whose processor parses files in another way. -/
def readingWith (e : Engine D) (parseFile : String → Parsed D) : Engine D :=
  { e with processor := e.processor.readingWith parseFile }

def describe (e : Engine D) : String :=
  "Engine \x7b schema: " ++ Text.quoted e.schema.systemId ++ ", kind: " ++ e.kind.variant ++
    ", grammar_compilations: " ++ toString e.grammar.builds ++
    ", rule_compilations: " ++ toString e.validator.builds ++ ", .. \x7d"

def compileGrammar (e : Engine D) : Except EngineError (Grammar D) :=
  Grammar.compile e.processor e.schema

def compileRules (e : Engine D) : Except EngineError Validator := do
  let tree ← (e.schema.expanded e.kind e.resolver e.directory).mapError .rules
  (Validator.ofSchema e.processor e.phase tree).mapError .rules

/-- Makes sure of the grammar, if the schema has one. -/
def needGrammar (e : Engine D) : Except EngineError (Option (Grammar D)) × Engine D :=
  match e.kind with
  | .assertions => (.ok none, e)
  | .grammar =>
    let (g, slot) := e.grammar.get fun _ => e.compileGrammar
    (g.map some, { e with grammar := slot })

def needValidator (e : Engine D) : Except EngineError Validator × Engine D :=
  let (v, slot) := e.validator.get fun _ => e.compileRules
  (v, { e with validator := slot })

def needAll (e : Engine D) : Except EngineError (Option (Grammar D) × Validator) × Engine D :=
  match e.needGrammar with
  | (.error err, e) => (.error err, e)
  | (.ok g, e) =>
    match e.needValidator with
    | (.error err, e) => (.error err, e)
    | (.ok v, e) => (.ok (g, v), e)

/-- Compiles everything ahead of the first document. -/
def prepare (e : Engine D) : Except EngineError Unit × Engine D :=
  let (r, e) := e.needAll
  (r.map fun _ => (), e)

def parse (p : Processor D) : DocumentSource → Except ProcessorError (Parsed D)
  | .file path => p.parsePath path
  | .memory systemId data => p.parseMemory systemId data

/-- Records the check of a document against the grammar, if there is one; nothing if that failed. -/
def checkGrammar (p : Processor D) (g : Option (Grammar D)) (d : D) (systemId : String)
    (run : ValidationRun) : Except EngineError ValidationRun :=
  match g with
  | none => .ok run
  | some g => do return (run.enter .grammarPhase).recordGrammar (← g.validate p d systemId)

/-- Whether a run stops before its assertions: the grammar phase found an error. -/
def stopsBeforeAssertions (g : Option (Grammar D)) (run : ValidationRun) : Bool :=
  g.isSome && ! run.valid

def checkAssertions (p : Processor D) (v : Validator) (d : D) (systemId : String)
    (run : ValidationRun) : ValidationRun :=
  let run := run.enter .assertionPhase
  match Validator.Run.report ⟨p, d, systemId, v⟩ with
  | .ok report => (run.setReport report).enter .done
  | .error e => run.abort e

def checkDocument (p : Processor D) (g : Option (Grammar D)) (v : Validator) (d : D)
    (systemId : String) (run : ValidationRun) : ValidationRun :=
  match checkGrammar p g d systemId run with
  | .error e => run.abort e
  | .ok run =>
    if stopsBeforeAssertions g run then run.enter .done
    else checkAssertions p v d systemId run

def check (p : Processor D) (g : Option (Grammar D)) (v : Validator) (source : DocumentSource) :
    Outcome :=
  let run : ValidationRun := { document := source.systemId }
  match parse p source with
  | .error e => (run.abort (.ofProcessor e)).finish
  | .ok parsed =>
    let run := run.record parsed.diagnostics
    match parsed.document with
    | none =>
      let run := if Diagnostic.anyError parsed.diagnostics then run
        else run.record [.ofError "document could not be parsed"]
      (run.enter .done).finish
    | some d => (checkDocument p g v d source.systemId run).finish

def validate (e : Engine D) (source : DocumentSource) : Except EngineError Outcome × Engine D :=
  let (r, e) := e.needAll
  (r.map fun (g, v) => check e.processor g v source, e)

end Engine

end Schematron
