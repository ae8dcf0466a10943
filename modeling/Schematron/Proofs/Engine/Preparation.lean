import Schematron.Engine.Engine
import Schematron.Proofs.Sequencing

/-!
# Prepared engines

What an engine has compiled is told by its kind and its slots (`HasGrammar`, `HasValidator`). A use
that got a grammar or a validator leaves an engine that has it, and an engine that has it gives it
to every later use and stays as it is.
-/
namespace Schematron

namespace Slot
variable {α ε : Type}

/-- What a slot gave is what it holds afterwards. -/
theorem value_of_get_eq_ok {s t : Slot α} {attempt : Unit → Except ε α} {a : α}
    (h : s.get attempt = (.ok a, t)) : t.value = some a := by
  unfold get at h
  split at h
  · rename_i b hb
    cases h
    exact hb
  · split at h
    · cases h
      rfl
    · cases h

end Slot

namespace Engine
variable {D : Type} {e e' : Engine D} {g : Option (Grammar D)} {v : Validator}

/-- An engine has the grammar that its documents are checked against, or needs none. -/
def HasGrammar (e : Engine D) : Option (Grammar D) → Prop
  | none => e.kind = .assertions
  | some g => e.kind = .grammar ∧ e.grammar.value = some g

def HasValidator (e : Engine D) (v : Validator) : Prop := e.validator.value = some v

theorem HasGrammar.isSome_iff (h : e.HasGrammar g) : g.isSome = true ↔ e.kind = .grammar := by
  cases g with
  | none =>
    have hk : e.kind = .assertions := h
    simp [hk]
  | some g =>
    have hk : e.kind = .grammar := h.1
    simp [hk]

theorem HasGrammar.needGrammar (h : e.HasGrammar g) : e.needGrammar = (.ok g, e) := by
  cases g with
  | none =>
    have hk : e.kind = .assertions := h
    simp [Engine.needGrammar, hk]
  | some g =>
    obtain ⟨hk, hv⟩ := h
    unfold Engine.needGrammar
    split
    · rename_i hk'
      rw [hk] at hk'
      cases hk'
    · rw [Slot.get_of_some hv]
      rfl

theorem HasValidator.needValidator (h : e.HasValidator v) : e.needValidator = (.ok v, e) := by
  simp [Engine.needValidator, Slot.get_of_some h]

theorem hasGrammar_of_needGrammar (h : e.needGrammar = (.ok g, e')) : e'.HasGrammar g := by
  unfold Engine.needGrammar at h
  split at h
  · rename_i hk
    cases h
    exact hk
  · rename_i hk
    rcases hs : e.grammar.get fun _ => e.compileGrammar with ⟨r, slot⟩
    rw [hs] at h
    cases r with
    | error err => cases h
    | ok a =>
      have hvalue := Slot.value_of_get_eq_ok hs
      cases h
      exact ⟨hk, hvalue⟩

theorem hasValidator_of_needValidator (h : e.needValidator = (.ok v, e')) : e'.HasValidator v := by
  rcases hs : e.validator.get fun _ => e.compileRules with ⟨r, slot⟩
  simp only [Engine.needValidator, hs] at h
  cases h
  exact Slot.value_of_get_eq_ok hs

/-- Needing the validator changes nothing that a grammar depends on. -/
theorem HasGrammar.after_needValidator (h : e.HasGrammar g) : e.needValidator.2.HasGrammar g := h

theorem needAll_of_has (hg : e.HasGrammar g) (hv : e.HasValidator v) :
    e.needAll = (.ok (g, v), e) := by
  simp only [Engine.needAll, hg.needGrammar, hv.needValidator]

/-- A use that got everything leaves an engine that has it. -/
theorem has_of_needAll (h : e.needAll.1 = .ok (g, v)) :
    e.needAll.2.HasGrammar g ∧ e.needAll.2.HasValidator v := by
  unfold Engine.needAll at h ⊢
  rcases hn : e.needGrammar with ⟨r, e₁⟩
  rw [hn] at h
  cases r with
  | error err => cases h
  | ok g' =>
    rcases hm : e₁.needValidator with ⟨r', e₂⟩
    simp only [hm] at h ⊢
    cases r' with
    | error err => cases h
    | ok v' =>
      cases h
      have hg := (hasGrammar_of_needGrammar hn).after_needValidator
      rw [hm] at hg
      exact ⟨hg, hasValidator_of_needValidator hm⟩

/-- Preparing an engine successfully leaves an engine that has everything. -/
theorem has_of_prepare (h : e.prepare.1 = .ok ()) :
    ∃ g v, e.prepare.2.HasGrammar g ∧ e.prepare.2.HasValidator v := by
  obtain ⟨⟨g, v⟩, hall, _⟩ := Sequencing.map_eq_ok.1 h
  exact ⟨g, v, has_of_needAll hall⟩

/-- An engine that has everything checks every document and stays as it is. -/
theorem validate_of_has (hg : e.HasGrammar g) (hv : e.HasValidator v) (source : DocumentSource) :
    e.validate source = (.ok (check e.processor g v source), e) := by
  simp only [Engine.validate, needAll_of_has hg hv, Except.map]

end Engine

end Schematron
