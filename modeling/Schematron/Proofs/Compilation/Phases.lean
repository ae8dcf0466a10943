import Schematron.Proofs.Compilation.Validators

/-!
# Compiling for a phase

Which phase is in force, and which patterns a phase lists, is said of the tree of the schema
(`effectivePhase`, `lists`), and the compiler goes by it (`phase?_eq`, `contains_activeIds`).

A phase without variables of its own changes two things in a compiled validator: the name of the
phase, and the patterns, of which those that the phase lists are left. Whatever can be compiled for
all phases can be compiled for such a phase (`schema_ofPhase`).
-/
namespace Schematron.Compilation
open Sequencing Xml

variable {check : String → Except TransformError Unit}

/-- The phase that a schema is for: the one that is asked for by name, or else its default phase. -/
def effectivePhase (asked : Option String) (schema : Element) : Option String :=
  match asked with
  | none => schema.attr "defaultPhase"
  | some id => if id = "" ∨ id = "#DEFAULT" then schema.attr "defaultPhase" else some id

/-- Whether a phase has an `active` element for the patterns with an id. -/
def lists (phase : Element) (id : String) : Bool :=
  phase.elements.any fun e => e.is schematronUri "active" && e.attr "pattern" == some id

theorem requestedPhase_eq (asked : Option String) (e : Element) :
    requestedPhase e asked = effectivePhase asked e := by
  cases asked with
  | none => rfl
  | some id =>
    by_cases h : id = "" ∨ id = "#DEFAULT"
    · have hrefused : (! id.isEmpty && id != defaultPhase) = false := by
        simpa [defaultPhase, or_iff_not_imp_left] using h
      simp only [requestedPhase, effectivePhase, if_pos h, Option.filter, hrefused]
      rfl
    · have htaken : (! id.isEmpty && id != defaultPhase) = true := by
        simpa [defaultPhase] using h
      simp only [requestedPhase, effectivePhase, if_neg h, Option.filter, htaken]
      rfl

theorem contains_activeIds (phase : Element) : (activeIds phase).contains = lists phase := by
  funext id
  rw [Bool.eq_iff_iff]
  simp only [activeIds, lists, Element.childrenNamed, List.contains_iff_mem, List.mem_filterMap,
    List.mem_filter, List.any_eq_true, Bool.and_eq_true, beq_iff_eq, and_assoc]

def validatorOfPhase (v : Validator) (id : String) (listed : String → Bool) : Validator :=
  { v with phase := id, patterns := v.patterns.filter (·.id.any listed) }

/-- The declaration of the phase that is in force, if that is not the phase of all patterns. -/
theorem phase?_eq {m : Type → Type} [Monad m] [MonadExceptOf TransformError m]
    (asked : Option String) (e : Element) : (phase? e asked : m (Option (String × Element))) =
      match (effectivePhase asked e).filter (· != "#ALL") with
      | none => pure none
      | some id =>
        match (e.childrenNamed schematronUri "phase").find? (·.attr "id" == some id) with
        | some p => pure (some (id, p))
        | none => throw (.unknownPhase id) := by
  rw [← requestedPhase_eq]
  rfl

theorem phase?_all (e : Element) : phase? e (some "#ALL") = (.ok none : Except TransformError _) := by
  have hphase : effectivePhase (some "#ALL") e = some "#ALL" := by
    simp [effectivePhase]
  rw [phase?_eq, hphase]
  rfl

theorem phase?_of_find? {e phase : Element} {id : String} (hid : id ≠ "") (hall : id ≠ "#ALL")
    (hdefault : id ≠ "#DEFAULT")
    (hphase : (e.childrenNamed schematronUri "phase").find? (·.attr "id" == some id) =
      some phase) : phase? e (some id) = (.ok (some (id, phase)) : Except TransformError _) := by
  have hin : effectivePhase (some id) e = some id := by
    simp [effectivePhase, hid, hdefault]
  have hchosen : (some id).filter (· != "#ALL") = some id := by simp [Option.filter, hall]
  simp only [phase?_eq, hin, hchosen, hphase]
  rfl

theorem id_of_pattern {e : Element} {p : Pattern} (h : pattern check e = .ok p) :
    p.id = e.attr "id" := by
  simp only [pattern, bind_eq_ok] at h
  obtain ⟨rules, _, selection, _, lets, _, h⟩ := h
  cases h
  rfl

/-- Fewer patterns ask for no diagnostic that more patterns do not ask for. -/
theorem missingDiagnostic?_filter {patterns : List Pattern}
    {diagnostics : List (String × List MessagePart)} (q : Pattern → Bool)
    (h : missingDiagnostic? patterns diagnostics = none) :
    missingDiagnostic? (patterns.filter q) diagnostics = none := by
  unfold missingDiagnostic? at h ⊢
  rw [List.find?_eq_none] at h ⊢
  intro id hid
  apply h id
  obtain ⟨p, hp, hmem⟩ := List.mem_flatMap.1 hid
  exact List.mem_flatMap.2 ⟨p, List.mem_of_mem_filter hp, hmem⟩

/-- A validator that is compiled for all phases is, with the patterns that a phase lists, compiled
for that phase. -/
theorem Compiled.ofPhase {e phase : Element} {v : Validator} (h : Compiled check none e v)
    (id : String) (hlets : phase.childrenNamed schematronUri "let" = []) :
    Compiled check (some (id, phase)) e (validatorOfPhase v id (lists phase)) := by
  obtain ⟨own, added, hown, hadded, heq⟩ := h.lets
  have hnone : bindings check phase = .ok [] := by
    simp [bindings, hlets]
  have hpatterns : (e.childrenNamed schematronUri "pattern").mapM (pattern check) =
      .ok v.patterns := by
    have hall : (e.childrenNamed schematronUri "pattern").filter (isActive none) =
        e.childrenNamed schematronUri "pattern" := by
      rw [List.filter_eq_self]
      intro p _
      rfl
    rw [← hall]
    exact h.patterns
  refine ⟨h.isSchema, h.namespaces, ⟨own, [], hown, hnone, ?_⟩, ?_, h.diagnostics,
    missingDiagnostic?_filter _ h.noneMissing, h.nameOfNode, h.title, h.schemaVersion, rfl⟩
  · have : added = [] := by
      cases hadded
      rfl
    rw [validatorOfPhase, heq, this]
  · apply mapM_filter hpatterns
    intro p q hq
    rw [id_of_pattern hq, ← contains_activeIds]
    rfl

/-- Whatever compiles for all phases compiles for a phase without variables of its own. -/
theorem schema_ofPhase {e phase : Element} {v : Validator} {id : String} (hid : id ≠ "")
    (hall : id ≠ "#ALL") (hdefault : id ≠ "#DEFAULT")
    (hphase : (e.childrenNamed schematronUri "phase").find? (·.attr "id" == some id) = some phase)
    (hlets : phase.childrenNamed schematronUri "let" = [])
    (h : schema check (some "#ALL") e = .ok v) :
    schema check (some id) e = .ok (validatorOfPhase v id (lists phase)) := by
  obtain ⟨chosen, hchosen, hv⟩ := schema_eq_ok_iff.1 h
  rw [phase?_all] at hchosen
  cases hchosen
  exact schema_eq_ok_iff.2 ⟨_, phase?_of_find? hid hall hdefault hphase, hv.ofPhase id hlets⟩

end Schematron.Compilation
