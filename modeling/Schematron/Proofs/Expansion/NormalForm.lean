import Schematron.Proofs.Expansion.Flattening
import Schematron.Proofs.Expansion.Patterns

/-!
# The normal form of a schema

A schema is concrete if nothing abstract is left in it: no abstract pattern, no instance, no
abstract rule, and no rule that extends another. Expansion makes a schema concrete, whatever turns
out to be abstract on the way, and it leaves a concrete schema as it is; so there is nothing left
for it to do a second time (`expand_expand`).
-/
namespace Schematron.Expansion
open Xml Sequencing

/-- A child of a pattern that is no abstract rule and, if it is a rule, extends none. -/
def IsConcreteRule : Node → Prop
  | .text _ => True
  | .element t cs => isSch t "rule" = true → isAbstract t = false ∧ ∀ n ∈ cs, isExtends n = false

def HasConcreteRules : Node → Prop
  | .text _ => True
  | .element t cs => isSch t "pattern" = true → ∀ n ∈ cs, IsConcreteRule n

/-- Nothing abstract is left in a schema: its patterns are neither abstract nor instances, their
rules are not abstract, and these extend nothing. -/
def IsConcrete (schema : Element) : Prop :=
  ∀ n ∈ schema.children, IsPlain n ∧ HasConcreteRules n

section
variable {templates rules : List (String × Element)}

/-- An instance is as abstract as the pattern that asks for it, and asks for nothing itself. -/
theorem isPlain_of_instantiate {pattern template out : Element}
    (ha : isAbstract pattern.tag = false) (h : instantiate pattern template = .ok out) :
    IsPlain out.toNode := by
  have htag := tag_of_instantiate h
  intro _
  rw [isAbstract, htag, Tag.attr_filter_isPlain, Tag.attr_filter_isPlain]
  exact ⟨ha, rfl⟩

theorem isPlain_of_concretePattern {n : Node} {ns : List Node}
    (h : concretePattern templates n = .ok ns) : ∀ m ∈ ns, IsPlain m := by
  rcases concretePattern_cases h with
    ⟨hn, rfl⟩ | ⟨_, rfl⟩ | ⟨t, cs, template, out, rfl, _, ha, hout, rfl⟩
  · simpa using hn
  · simp
  · simpa using isPlain_of_instantiate ha hout

theorem isConcreteRule_of_concreteRule {n : Node} {ns : List Node}
    (h : concreteRule rules n = .ok ns) : ∀ m ∈ ns, IsConcreteRule m := by
  cases n with
  | text s =>
    cases h
    simp [IsConcreteRule]
  | element t cs =>
    cases hr : isSch t "rule" with
    | false =>
      simp only [concreteRule, hr] at h
      cases h
      simp [IsConcreteRule, hr]
    | true =>
      cases ha : isAbstract t with
      | true =>
        simp only [concreteRule, hr, ha, if_true] at h
        cases h
        simp
      | false =>
        simp only [concreteRule, hr, ha, if_true] at h
        obtain ⟨out, hout, h⟩ := bind_eq_ok.1 h
        cases h
        obtain ⟨htag, hform, _⟩ := extend_eq_ok_iff.1 hout
        have hconcrete : IsConcreteRule out.toNode := by
          intro _
          rw [htag]
          exact ⟨ha, hform.isExtends_eq_false⟩
        intro m hm
        rwa [List.mem_singleton.1 hm]

/-- Putting in what rules extend changes the children of patterns only. -/
theorem isConcrete_of_withConcreteRules {n m : Node} (hn : IsPlain n)
    (h : withConcreteRules rules n = .ok m) : IsPlain m ∧ HasConcreteRules m := by
  cases n with
  | text s =>
    cases h
    exact ⟨trivial, trivial⟩
  | element t cs =>
    cases hp : isSch t "pattern" with
    | false =>
      simp only [withConcreteRules, hp] at h
      cases h
      exact ⟨hn, fun hpattern => absurd (hp.symm.trans hpattern) (by decide)⟩
    | true =>
      simp only [withConcreteRules, hp, if_true] at h
      obtain ⟨parts, hparts, h⟩ := bind_eq_ok.1 h
      cases h
      refine ⟨hn, fun _ c hc => ?_⟩
      obtain ⟨part, hpart, hc⟩ := List.mem_flatten.1 hc
      obtain ⟨_, _, hstep⟩ := exists_of_mem_mapM hparts hpart
      exact isConcreteRule_of_concreteRule hstep c hc

end

/-- Expansion leaves nothing abstract. -/
theorem isConcrete_of_expand {schema out : Element} (h : expand schema = .ok out) :
    IsConcrete out := by
  obtain ⟨mid, hmid, h⟩ := bind_eq_ok.1 h
  obtain ⟨parts, hparts, hmid⟩ := bind_eq_ok.1 hmid
  obtain ⟨rules, _, h⟩ := bind_eq_ok.1 h
  obtain ⟨ns, hns, h⟩ := bind_eq_ok.1 h
  cases hmid
  cases h
  intro n hn
  obtain ⟨m, hm, hstep⟩ := exists_of_mem_mapM hns hn
  obtain ⟨part, hpart, hm⟩ := List.mem_flatten.1 hm
  obtain ⟨_, _, hconcrete⟩ := exists_of_mem_mapM hparts hpart
  exact isConcrete_of_withConcreteRules (isPlain_of_concretePattern hconcrete m hm) hstep

theorem concretePattern_of_isPlain {n : Node} (h : IsPlain n)
    (templates : List (String × Element)) : concretePattern templates n = .ok [n] := by
  cases n with
  | text s => rfl
  | element t cs =>
    cases hp : isSch t "pattern" with
    | false => simp [concretePattern, hp]
    | true =>
      obtain ⟨ha, hi⟩ := h hp
      simp [concretePattern, hp, ha, hi]

theorem concreteRule_of_isConcreteRule {n : Node} (h : IsConcreteRule n)
    (rules : List (String × Element)) : concreteRule rules n = .ok [n] := by
  cases n with
  | text s => rfl
  | element t cs =>
    cases hr : isSch t "rule" with
    | false => simp [concreteRule, hr]
    | true =>
      obtain ⟨ha, he⟩ := h hr
      have hextend : extend rules ⟨t, cs⟩ = .ok ⟨t, cs⟩ := by
        simp [extend, flattenChildren_eq_self he]
      simp [concreteRule, hr, ha, hextend, Element.toNode]

theorem withConcreteRules_of_hasConcreteRules {n : Node} (h : HasConcreteRules n)
    (rules : List (String × Element)) : withConcreteRules rules n = .ok n := by
  cases n with
  | text s => rfl
  | element t cs =>
    cases hp : isSch t "pattern" with
    | false => simp [withConcreteRules, hp]
    | true =>
      have hcs : cs.mapM (concreteRule rules) = .ok (cs.map List.singleton) :=
        mapM_eq_ok_map fun c hc => concreteRule_of_isConcreteRule (h hp c hc) rules
      simp [withConcreteRules, hp, hcs, flatten_map_singleton]

/-- A concrete schema defines no abstract rule, so none that lacks an id. -/
theorem abstractRules_of_isConcrete {schema : Element} (h : IsConcrete schema) :
    abstractRules schema = .ok [] := by
  have hnone : ∀ rule ∈ (schema.childrenNamed schematronUri "pattern").flatMap fun p =>
      p.childrenNamed schematronUri "rule", abstractRule? rule = .ok none := by
    intro rule hrule
    obtain ⟨p, hp, hrule⟩ := List.mem_flatMap.1 hrule
    obtain ⟨hp, hpattern⟩ := List.mem_filter.1 hp
    obtain ⟨hrule, hisRule⟩ := List.mem_filter.1 hrule
    have hconcrete := (h p.toNode (Element.mem_elements.1 hp)).2 hpattern rule.toNode
      (Element.mem_elements.1 hrule) hisRule
    simp [abstractRule?, hconcrete.1]
  simp [abstractRules, mapM_eq_ok_map hnone]

/-- Expansion leaves a concrete schema as it is. -/
theorem expand_eq_self {schema : Element} (h : IsConcrete schema) : expand schema = .ok schema := by
  have hpatterns : schema.children.mapM (concretePattern (abstractPatterns schema)) =
      .ok (schema.children.map List.singleton) :=
    mapM_eq_ok_map fun n hn => concretePattern_of_isPlain (h n hn).1 _
  have hrules : schema.children.mapM (withConcreteRules []) = .ok (schema.children.map id) :=
    mapM_eq_ok_map fun n hn => withConcreteRules_of_hasConcreteRules (h n hn).2 []
  rw [expand, instantiatePatterns, hpatterns, ok_bind, pure_eq_ok, ok_bind, flatten_map_singleton,
    resolveRules, abstractRules_of_isConcrete h, ok_bind, hrules, List.map_id]
  rfl

/-- What expansion gives is concrete, and expanding it again changes nothing. -/
theorem expand_expand {schema out : Element} (h : expand schema = .ok out) :
    IsConcrete out ∧ expand out = .ok out :=
  ⟨isConcrete_of_expand h, expand_eq_self (isConcrete_of_expand h)⟩

/-- A schema with an instance of an abstract pattern, which a parameter makes a rule of abstract that
another one extends. -/
def hidingSchema : Element where
  tag := ⟨.inNamespace schematronUri "sch" "schema", [], []⟩
  children := [
    schNode "pattern" [("abstract", "true"), ("id", "limits")] [
      schNode "rule" [("abstract", "$hidden"), ("id", "limit"), ("context", "item")] [
        assertThat "@limit"],
      schNode "rule" [("context", "order")] [extendsRule "limit", assertThat "item"]],
    .text " and ",
    schNode "pattern" [("is-a", "limits")] [
      schNode "param" [("name", "hidden"), ("value", "true")] []]]

/-- The rule that turns out to be abstract is gone, and what it holds is where it was extended. -/
theorem expand_expand_hiding : ∃ out, expand hidingSchema = .ok out ∧ IsConcrete out ∧
    expand out = .ok out ∧ testsOf out.children = ["@limit", "item"] := by
  obtain ⟨out, hout, htests⟩ := exists_of_any (x := expand hidingSchema)
    (p := fun out : Element => testsOf out.children == ["@limit", "item"]) (by decide +kernel)
  obtain ⟨hconcrete, hagain⟩ := expand_expand hout
  exact ⟨out, hout, hconcrete, hagain, eq_of_beq htests⟩

end Schematron.Expansion
