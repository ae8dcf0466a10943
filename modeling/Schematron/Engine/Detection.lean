import Schematron.Engine.Source
import Schematron.Processor

/-!
# What kind of schema

A schema is told by the namespace of its root element, which two expressions probe in order.
-/
namespace Schematron
variable {D : Type}

/-- The probes in order; the first one that holds decides. -/
def probes : List (String × SchemaKind) :=
  [("boolean(/sch:schema)", .assertions), ("boolean(/xs:schema)", .grammar)]

def probe (p : Processor D) (d : D) (env : XPath.Environment) (source : String) :
    Except EngineError Bool := do
  let failed := fun (e : XPathError) => EngineError.internal e.message
  (p.compileExpression source).mapError failed
  return (← (p.eval d env source XPath.documentPath).mapError failed).toBool

/-- The kind of the first probe that holds. -/
def firstKind? (p : Processor D) (d : D) (env : XPath.Environment) :
    List (String × SchemaKind) → Except EngineError (Option SchemaKind)
  | [] => .ok none
  | (source, kind) :: rest => do
    if ← probe p d env source then return some kind else firstKind? p d env rest

def SchemaSource.kind (s : SchemaSource) (p : Processor D) : Except EngineError SchemaKind := do
  let parsed ← (p.parseMemory s.systemId s.data).mapError .ofProcessor
  match parsed.document with
  | none =>
    throw (.schemaParsing s.systemId ("; ".intercalate (parsed.diagnostics.map (·.render))))
  | some d =>
    let env ← (p.newEnvironment d).mapError .ofProcessor
    let env ← (p.bindNamespace env "sch" schematronUri).mapError .ofProcessor
    let env ← (p.bindNamespace env "xs" xmlSchemaUri).mapError .ofProcessor
    match ← firstKind? p d env probes with
    | some kind => return kind
    | none => throw (.unsupportedSchema s.systemId)

end Schematron
