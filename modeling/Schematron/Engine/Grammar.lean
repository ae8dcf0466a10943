import Schematron.Engine.Run
import Schematron.Engine.Source
import Schematron.Processor

/-!
# Grammars

Compiling a schema as a grammar tolerates no diagnostic; validating a document against it tolerates
warnings.
-/
namespace Schematron
variable {D : Type}

/-- A compiled grammar: its document and the identifier of its schema. -/
structure Grammar (D : Type) where
  document : D
  systemId : String
  deriving Inhabited

namespace Grammar

/-- What a failed compilation says if nothing was reported. -/
def unexplained : Diagnostic := .ofError "schema could not be compiled"

def compile (p : Processor D) (s : SchemaSource) : Except EngineError (Grammar D) := do
  let parsed ← (p.parseMemory s.systemId s.data).mapError .ofProcessor
  match parsed.document with
  | none => throw (.grammarCompilation s.systemId parsed.diagnostics)
  | some d =>
    match p.compileGrammar d with
    | none => throw (.ofProcessor .outOfMemory)
    | some build =>
      let ds := parsed.diagnostics ++ build.diagnostics
      if build.succeeded && ! Tolerance.nothing.fails ds then return ⟨d, s.systemId⟩
      else throw (.grammarCompilation s.systemId (if ds.isEmpty then [unexplained] else ds))

def verdict (c : GrammarCheck) : GrammarVerdict :=
  ⟨c.code = 0 && ! Tolerance.warnings.fails c.diagnostics, c.diagnostics⟩

def validate (p : Processor D) (g : Grammar D) (d : D) (systemId : String) :
    Except EngineError GrammarVerdict :=
  match p.checkGrammar g.document d with
  | none => .error (.documentGrammar systemId ProcessorError.noValidationContext.message)
  | some c =>
    if c.code < 0 then
      .error (.documentGrammar systemId (ProcessorError.validationInternal c.code systemId).message)
    else .ok (verdict c)

end Grammar

end Schematron
