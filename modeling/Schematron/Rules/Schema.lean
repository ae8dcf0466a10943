import Schematron.Engine.Source
import Schematron.Processor
import Schematron.Rules.Compilation
import Schematron.Rules.Pipeline

/-!
# From schemas to validators

A schema's text is read, goes through the rewriting stages of its kind, and is compiled. A text that
cannot be read is reported against the first of those stages.
-/
namespace Schematron

def SchemaSource.expanded (s : SchemaSource) (kind : SchemaKind) (resolver : Inclusion.Resolver)
    (directory : String) : Except RuleError Xml.Element := do
  let atInput := fun cause => RuleError.mk (firstStage kind.stages) cause
  let text ← s.text.mapError fun e => atInput (.malformed e.message)
  let tree ← (Xml.Element.parse? text).elim (.error (atInput .xml)) .ok
  applyStages ⟨⟨s.baseUrl directory, directory⟩, resolver⟩ kind.stages tree

/-- Compiles an expanded schema with the expressions that a processor accepts. -/
def Validator.ofSchema {D : Type} (p : Processor D) (phase : Option String) (e : Xml.Element) :
    Except RuleError Validator :=
  let check : String → Except TransformError Unit := fun source =>
    (p.compileExpression source).mapError .ofXPath
  (Compilation.schema check phase e).mapError fun cause => ⟨.compile, cause⟩

end Schematron
