import Schematron.Proofs.Sequencing
import Schematron.Rules.Schema

/-!
# Compiled validators

What can be relied on in a validator that the compiler has made: a pattern has a union of selections
exactly if it has rules, and every diagnostic that a test asks for is there.
-/
namespace Schematron.Compilation
open Sequencing Xml

variable {check : String → Except TransformError Unit}

theorem expression_eq_ok {source : String} {x : Expression}
    (h : expression check source = .ok x) : check source = .ok () ∧ x = ⟨source⟩ := by
  obtain ⟨hc, h⟩ := check_bind_eq_ok.1 h
  cases h
  exact ⟨hc, rfl⟩

theorem expression?_eq_ok {source : Option String} {x : Option Expression}
    (h : expression? check source = .ok x) : x = source.map Expression.mk := by
  cases source with
  | none =>
    cases h
    rfl
  | some s =>
    obtain ⟨x', hx, rfl⟩ := map_eq_ok.1 h
    rw [(expression_eq_ok hx).2]
    rfl

theorem selection_of_pattern {e : Element} {p : Pattern} (h : pattern check e = .ok p) :
    p.selection = (unionOf (p.rules.map (·.selection.source))).map Expression.mk := by
  simp only [pattern, bind_eq_ok] at h
  obtain ⟨rules, _, selection, hs, lets, _, h⟩ := h
  cases h
  exact expression?_eq_ok hs

theorem selection_eq_none {p : Pattern}
    (h : p.selection = (unionOf (p.rules.map (·.selection.source))).map Expression.mk) :
    p.selection = none ↔ p.rules = [] := by
  rw [h]
  cases p.rules <;> simp [unionOf]

theorem throw_eq_ok {α : Type} {cause : TransformError} {a : α} :
    (throw cause : Except TransformError α) = .ok a ↔ False := by
  simp [throw, throwThe, MonadExceptOf.throw]

/-- What a compiled validator has of its schema, given the phase that was chosen. -/
structure Compiled (check : String → Except TransformError Unit)
    (phase : Option (String × Element)) (e : Element) (v : Validator) : Prop where
  isSchema : e.is schematronUri "schema" = true
  namespaces : (e.childrenNamed schematronUri "ns").mapM namespaceBinding =
    (.ok v.namespaces : Except TransformError _)
  lets : ∃ own added, bindings check e = .ok own ∧ phaseBindings check phase = .ok added ∧
    v.lets = own ++ added
  patterns : ((e.childrenNamed schematronUri "pattern").filter (isActive phase)).mapM
    (pattern check) = .ok v.patterns
  diagnostics : ((e.childrenNamed schematronUri "diagnostics").flatMap
    (·.childrenNamed schematronUri "diagnostic")).mapM (diagnostic check) = .ok v.diagnostics
  noneMissing : missingDiagnostic? v.patterns v.diagnostics = none
  nameOfNode : expression check "name()" = .ok v.nameOfNode
  title : v.title = titleOf e
  schemaVersion : v.schemaVersion = e.attr "schemaVersion"
  phase : v.phase = phase.elim allPhases (·.1)

/-- Compilation succeeds exactly if its phase is there and each of its parts can be compiled. -/
theorem schema_eq_ok_iff {asked : Option String} {e : Element} {v : Validator} :
    schema check asked e = .ok v ↔
      ∃ phase, phase? e asked = (.ok phase : Except TransformError _) ∧
        Compiled check phase e v := by
  cases hs : e.is schematronUri "schema" with
  | false =>
    constructor
    · intro h
      simp [schema, hs, bind_eq_ok, throw_eq_ok] at h
    · rintro ⟨phase, _, hv⟩
      rw [hv.isSchema] at hs
      cases hs
  | true =>
    constructor
    · intro h
      simp only [schema, hs, if_true] at h
      obtain ⟨namespaces, hn, h⟩ := bind_eq_ok.1 h
      obtain ⟨own, ho, h⟩ := bind_eq_ok.1 h
      obtain ⟨phase, hphase, h⟩ := bind_eq_ok.1 h
      obtain ⟨added, ha, h⟩ := bind_eq_ok.1 h
      obtain ⟨patterns, hp, h⟩ := bind_eq_ok.1 h
      obtain ⟨diagnostics, hd, h⟩ := bind_eq_ok.1 h
      cases hm : missingDiagnostic? patterns diagnostics with
      | some id => simp [hm, bind_eq_ok, throw_eq_ok] at h
      | none =>
        simp only [hm] at h
        obtain ⟨nameOfNode, hname, h⟩ := bind_eq_ok.1 h
        cases h
        exact ⟨phase, hphase, hs, hn, ⟨own, added, ho, ha, rfl⟩, hp, hd, hm, hname, rfl, rfl, rfl⟩
    · rintro ⟨phase, hphase, hv⟩
      obtain ⟨own, added, ho, ha, hlets⟩ := hv.lets
      have hlast : v = { v with
          title := titleOf e, schemaVersion := e.attr "schemaVersion"
          phase := phase.elim allPhases (·.1), lets := own ++ added } := by
        rw [← hv.title, ← hv.schemaVersion, ← hv.phase, ← hlets]
      simp only [schema, hs, hv.namespaces, ho, hphase, ha, hv.patterns, hv.diagnostics,
        hv.noneMissing, hv.nameOfNode, if_true, ok_bind, pure_eq_ok]
      exact congrArg Except.ok hlast.symm

/-- The patterns of a compiled validator are compiled, and no diagnostic that they ask for is
missing. -/
theorem schema_eq_ok {asked : Option String} {e : Element} {v : Validator}
    (h : schema check asked e = .ok v) :
    (∀ p ∈ v.patterns, ∃ e, pattern check e = .ok p) ∧
      missingDiagnostic? v.patterns v.diagnostics = none := by
  obtain ⟨phase, _, hv⟩ := schema_eq_ok_iff.1 h
  refine ⟨fun p hp => ?_, hv.noneMissing⟩
  obtain ⟨e', _, he'⟩ := exists_of_mem_mapM hv.patterns hp
  exact ⟨e', he'⟩

end Schematron.Compilation
