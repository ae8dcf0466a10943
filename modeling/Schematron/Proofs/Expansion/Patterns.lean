import Schematron.Proofs.Sequencing
import Schematron.Proofs.Xml.Attributes
import Schematron.Rules.Expansion

/-!
# What expansion reads of a schema

Both kinds of abstract definition stand in patterns, and instances are patterns. So the expansion of
a schema depends on its patterns only, and it leaves everything else as it is: of two schemas with
the same patterns, either both fail alike or both have the same patterns afterwards
(`patternNodes_expand`), whatever else they contain and wherever the patterns stand.
-/
namespace Schematron.Expansion
open Xml Sequencing

def isPattern : Node → Bool
  | .text _ => false
  | .element t _ => isSch t "pattern"

def patternNodes (schema : Element) : List Node := schema.children.filter isPattern

def otherNodes (schema : Element) : List Node := schema.children.filter (! isPattern ·)

/-- The elements among selected nodes are the selected elements. -/
theorem elements_filter {p : Node → Bool} {q : Element → Bool}
    (h : ∀ t cs, p (.element t cs) = q ⟨t, cs⟩) (ns : List Node) :
    (ns.filter p).filterMap Node.element? = (ns.filterMap Node.element?).filter q := by
  induction ns with
  | nil => rfl
  | cons n ns ih =>
    cases n with
    | text s => cases hp : p (.text s) <;> simp [hp, List.filterMap_cons, Node.element?, ih]
    | element t cs =>
      have ht := h t cs
      cases hp : p (.element t cs) <;> rw [hp] at ht <;> simp [hp, Node.element?, ih, ← ht]

theorem elements_patternNodes (schema : Element) :
    (patternNodes schema).filterMap Node.element? = schema.childrenNamed schematronUri "pattern" :=
  elements_filter (fun _ _ => rfl) schema.children

/-- The children of another name stand among what is no pattern. -/
theorem elements_otherNodes (schema : Element) {l : String} (hl : l ≠ "pattern") :
    ((otherNodes schema).filterMap Node.element?).filter (·.is schematronUri l) =
      schema.childrenNamed schematronUri l := by
  rw [otherNodes, elements_filter (q := fun e => ! e.is schematronUri "pattern") fun _ _ => rfl,
    List.filter_filter]
  apply List.filter_congr
  intro e _
  cases he : e.is schematronUri l with
  | false => rfl
  | true =>
    have hother : e.is schematronUri "pattern" = false := QName.is_of_ne he hl.symm
    rw [hother]
    rfl

theorem childrenNamed_of_otherNodes {e e' : Element} (h : otherNodes e = otherNodes e') {l : String}
    (hl : l ≠ "pattern") :
    e.childrenNamed schematronUri l = e'.childrenNamed schematronUri l := by
  rw [← elements_otherNodes e hl, h, elements_otherNodes e' hl]

theorem patternNodes_eq_iff {e e' : Element} : patternNodes e = patternNodes e' ↔
    e.childrenNamed schematronUri "pattern" = e'.childrenNamed schematronUri "pattern" := by
  have heq (e : Element) : patternNodes e =
      (e.childrenNamed schematronUri "pattern").map Element.toNode := by
    have hself (ns : List Node) (h : ∀ n ∈ ns, isPattern n = true) :
        (ns.filterMap Node.element?).map Element.toNode = ns := by
      induction ns with
      | nil => rfl
      | cons n ns ih =>
        have hns := ih fun m hm => h m (List.mem_cons_of_mem n hm)
        cases n with
        | text s => cases h _ List.mem_cons_self
        | element t cs => simp [Node.element?, Element.toNode, hns]
    rw [← elements_patternNodes, hself]
    exact fun n hn => List.of_mem_filter hn
  constructor
  · intro h
    rw [← elements_patternNodes, h, elements_patternNodes]
  · intro h
    rw [heq, h, heq]

/-- A child of a schema that is neither an abstract pattern nor an instance of one. -/
def IsPlain : Node → Prop
  | .text _ => True
  | .element t _ => isSch t "pattern" = true → isAbstract t = false ∧ t.attr "is-a" = none

theorem tag_of_instantiate {pattern template out : Element}
    (h : instantiate pattern template = .ok out) : out.tag = { pattern.tag with
      attributes := pattern.tag.attributes.filter fun a => ! a.name.isPlain "is-a" } := by
  obtain ⟨params, _, h⟩ := bind_eq_ok.1 h
  cases h
  rfl

/-- A child of a schema stays as it is, or is an abstract pattern that vanishes, or is a pattern
that an instance takes the place of. -/
theorem concretePattern_cases {templates : List (String × Element)} {n : Node} {ns : List Node}
    (h : concretePattern templates n = .ok ns) :
    (IsPlain n ∧ ns = [n]) ∨ (isPattern n = true ∧ ns = []) ∨
      ∃ t cs template out, n = .element t cs ∧ isSch t "pattern" = true ∧ isAbstract t = false ∧
        instantiate ⟨t, cs⟩ template = .ok out ∧ ns = [out.toNode] := by
  cases n with
  | text s =>
    cases h
    exact .inl ⟨trivial, rfl⟩
  | element t cs =>
    cases hp : isSch t "pattern" with
    | false =>
      simp only [concretePattern, hp] at h
      cases h
      exact .inl ⟨fun hpattern => absurd (hp.symm.trans hpattern) (by decide), rfl⟩
    | true =>
      cases ha : isAbstract t with
      | true =>
        simp only [concretePattern, hp, ha, if_true] at h
        cases h
        exact .inr (.inl ⟨hp, rfl⟩)
      | false =>
        simp only [concretePattern, hp, ha, if_true] at h
        cases hi : t.attr "is-a" with
        | none =>
          simp only [hi] at h
          cases h
          exact .inl ⟨fun _ => ⟨ha, hi⟩, rfl⟩
        | some id =>
          simp only [hi] at h
          cases hl : lookup? templates id with
          | none =>
            simp only [hl] at h
            cases h
          | some template =>
            simp only [hl] at h
            obtain ⟨out, hout, h⟩ := bind_eq_ok.1 h
            cases h
            exact .inr (.inr ⟨t, cs, template, out, rfl, hp, ha, hout, rfl⟩)

theorem actsOn_concretePattern (templates : List (String × Element)) :
    ActsOn isPattern (concretePattern templates) where
  outside n hn := by
    cases n with
    | text s => rfl
    | element t cs =>
      have ht : isSch t "pattern" = false := hn
      simp [concretePattern, ht]
  inside n ns hn h := by
    rcases concretePattern_cases h with
      ⟨_, rfl⟩ | ⟨_, rfl⟩ | ⟨t, cs, template, out, rfl, hp, _, hout, rfl⟩
    · simpa using hn
    · simp
    · have hpattern : isPattern out.toNode = true := by
        rw [Element.toNode, isPattern, tag_of_instantiate hout]
        exact hp
      simpa using hpattern

/-- Putting in what rules extend, as a step that may give any number of nodes. -/
theorem actsOn_withConcreteRules (rules : List (String × Element)) :
    ActsOn isPattern (fun n => List.singleton <$> withConcreteRules rules n) where
  outside n hn := by
    cases n with
    | text s => rfl
    | element t cs =>
      have ht : isSch t "pattern" = false := hn
      simp [withConcreteRules, ht, List.singleton]
  inside n ns hn h := by
    cases n with
    | text s => cases hn
    | element t cs =>
      have ht : isSch t "pattern" = true := hn
      obtain ⟨out, hstep, rfl⟩ := map_eq_ok.1 h
      simp only [withConcreteRules, ht, if_true] at hstep
      obtain ⟨parts, _, hout⟩ := bind_eq_ok.1 hstep
      cases hout
      intro n' hout
      rw [List.mem_singleton.1 hout]
      exact hn

theorem flatten_map_singleton (ns : List Node) : (ns.map List.singleton).flatten = ns := by
  induction ns with
  | nil => rfl
  | cons n ns ih => rw [List.map_cons, List.flatten_cons, ih]; rfl

theorem patternNodes_instantiatePatterns {e e' : Element} (h : patternNodes e = patternNodes e') :
    patternNodes <$> instantiatePatterns e = patternNodes <$> instantiatePatterns e' := by
  have hpart (e : Element) : patternNodes <$> instantiatePatterns e =
      List.flatten <$> (patternNodes e).mapM (concretePattern (abstractPatterns e)) := by
    rw [patternNodes, ← (actsOn_concretePattern _).filter_flatten_mapM, instantiatePatterns]
    cases e.children.mapM (concretePattern (abstractPatterns e)) <;> rfl
  have htemplates : abstractPatterns e = abstractPatterns e' := by
    rw [abstractPatterns, patternNodes_eq_iff.1 h, abstractPatterns]
  rw [hpart, hpart, h, htemplates]

theorem patternNodes_resolveRules {e e' : Element} (h : patternNodes e = patternNodes e') :
    patternNodes <$> resolveRules e = patternNodes <$> resolveRules e' := by
  have hpart (e : Element) : patternNodes <$> resolveRules e =
      abstractRules e >>= fun rules => List.flatten <$>
        (patternNodes e).mapM (fun n => List.singleton <$> withConcreteRules rules n) := by
    rw [resolveRules]
    cases abstractRules e with
    | error error => rfl
    | ok rules =>
      rw [ok_bind, ok_bind, patternNodes, ← (actsOn_withConcreteRules rules).filter_flatten_mapM,
        mapM_map_comm]
      cases e.children.mapM (withConcreteRules rules) with
      | error error => rfl
      | ok cs =>
        rw [map_ok, map_ok, flatten_map_singleton]
        rfl
  have hrules : abstractRules e = abstractRules e' := by
    rw [abstractRules, patternNodes_eq_iff.1 h, abstractRules]
  rw [hpart, hpart, h, hrules]

/-- Of schemas with the same patterns, either all fail alike or all have the same patterns when they
are expanded. -/
theorem patternNodes_expand {e e' : Element} (h : patternNodes e = patternNodes e') :
    patternNodes <$> expand e = patternNodes <$> expand e' := by
  rw [expand, expand, map_bind, map_bind]
  apply bind_eq_bind_of_map (patternNodes_instantiatePatterns h)
  intro a b _ _ hab
  exact patternNodes_resolveRules hab

/-- Expansion changes patterns only. -/
theorem expand_eq_ok {e out : Element} (h : expand e = .ok out) :
    out.tag = e.tag ∧ otherNodes out = otherNodes e := by
  obtain ⟨mid, hmid, h⟩ := bind_eq_ok.1 h
  obtain ⟨parts, hparts, hmid⟩ := bind_eq_ok.1 hmid
  obtain ⟨rules, _, h⟩ := bind_eq_ok.1 h
  obtain ⟨cs, hcs, h⟩ := bind_eq_ok.1 h
  cases hmid
  cases h
  have hothers := (actsOn_concretePattern _).filter_not_flatten hparts
  have hsingle : parts.flatten.mapM (fun n => List.singleton <$> withConcreteRules rules n) =
      .ok (cs.map List.singleton) := by
    rw [mapM_map_comm, hcs, map_ok]
  have hothers' := (actsOn_withConcreteRules rules).filter_not_flatten hsingle
  rw [flatten_map_singleton] at hothers'
  exact ⟨rfl, hothers'.trans hothers⟩

end Schematron.Expansion
