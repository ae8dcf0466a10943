import Schematron.Engine.Engine
import Schematron.Proofs.Sequencing

/-!
# What an engine is made of besides documents

Finding out what a schema is and compiling it reads no document. So an engine whose processor parses
files in another way is made and prepared in the same way, and fails in the same way. Checking a
document reads that document only.
-/
namespace Schematron
open Sequencing
variable {D : Type}

namespace Engine

theorem firstKind?_readingWith (p : Processor D) (parseFile : String → Parsed D) (d : D)
    (env : XPath.Environment) (ps : List (String × SchemaKind)) :
    firstKind? (p.readingWith parseFile) d env ps = firstKind? p d env ps := by
  induction ps with
  | nil => rfl
  | cons probed ps ih =>
    have hprobe : probe (p.readingWith parseFile) d env probed.1 = probe p d env probed.1 := rfl
    rw [firstKind?, firstKind?, hprobe, ih]

/-- What a schema is does not depend on documents. -/
theorem kind_readingWith (schema : SchemaSource) (p : Processor D) (parseFile : String → Parsed D) :
    schema.kind (p.readingWith parseFile) = schema.kind p := by
  unfold SchemaSource.kind
  simp only [firstKind?_readingWith]
  rfl

theorem build_readingWith (p : Processor D) (parseFile : String → Parsed D)
    (resolver : Inclusion.Resolver) (directory : String) (schema : SchemaSource)
    (phase : Option String) :
    build (p.readingWith parseFile) resolver directory schema phase =
      (·.readingWith parseFile) <$> build p resolver directory schema phase := by
  unfold build
  rw [kind_readingWith]
  cases schema.kind p <;> rfl

theorem needGrammar_readingWith (e : Engine D) (parseFile : String → Parsed D) :
    (e.readingWith parseFile).needGrammar =
      (e.needGrammar.1, e.needGrammar.2.readingWith parseFile) := by
  unfold needGrammar
  have hkind : (e.readingWith parseFile).kind = e.kind := rfl
  rw [hkind]
  cases e.kind <;> rfl

theorem needAll_readingWith (e : Engine D) (parseFile : String → Parsed D) :
    (e.readingWith parseFile).needAll = (e.needAll.1, e.needAll.2.readingWith parseFile) := by
  unfold needAll
  rw [needGrammar_readingWith]
  rcases e.needGrammar with ⟨g, e'⟩
  cases g with
  | error err => rfl
  | ok g =>
    have hvalidator : (e'.readingWith parseFile).needValidator =
        (e'.needValidator.1, e'.needValidator.2.readingWith parseFile) := rfl
    simp only [hvalidator]
    rcases e'.needValidator with ⟨v, e''⟩
    cases v <;> rfl

theorem prepare_readingWith (e : Engine D) (parseFile : String → Parsed D) :
    (e.readingWith parseFile).prepare = (e.prepare.1, e.prepare.2.readingWith parseFile) := by
  unfold prepare
  rw [needAll_readingWith]

theorem checkDocument_readingWith (p : Processor D) (parseFile : String → Parsed D)
    (g : Option (Grammar D)) (v : Validator) (d : D) (systemId : String) (run : ValidationRun) :
    checkDocument (p.readingWith parseFile) g v d systemId run =
      checkDocument p g v d systemId run := rfl

/-- Checking a file depends only on what the processor makes of that file. -/
theorem check_readingWith_congr (p : Processor D) {parseFile parseFile' : String → Parsed D}
    {path : String} (h : parseFile path = parseFile' path) (g : Option (Grammar D)) (v : Validator) :
    check (p.readingWith parseFile) g v (.file path) =
      check (p.readingWith parseFile') g v (.file path) := by
  have hparse (f : String → Parsed D) : parse (p.readingWith f) (.file path) =
      (Processor.argument path >>= fun _ => .ok (f path)) := rfl
  unfold check
  rw [hparse, hparse, h]
  simp only [checkDocument_readingWith]

end Engine

end Schematron
