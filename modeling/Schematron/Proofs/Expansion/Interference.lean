import Schematron.Proofs.Sequencing
import Schematron.Proofs.Xml.Attributes
import Schematron.Rules.Expansion

/-!
# Which instances depend on one another

The abstract rules of all patterns share one table, in which the last rule with an id is in force.
Every instance of an abstract pattern adds its own copies of the abstract rules of that pattern, so
an instance may change what another one extends. `becomes_without_instance` says that this is all
that it may change: a pattern becomes the same with and without an instance unless one of its rules
extends, directly or through other rules, an abstract rule of that instance that is in force.
-/
namespace Schematron.Expansion
open Xml Sequencing

/-- The ids of the rules that nodes extend, directly or through rules that are in force. -/
inductive Uses (rules : List (String × Element)) : List Node → String → Prop where
  | direct {ns t cs id} (child : .element t cs ∈ ns) (extends_ : isSch t "extends" = true)
      (named : t.attr "rule" = some id) : Uses rules ns id
  | through {ns id rule id'} (used : Uses rules ns id) (inForce : lookup? rules id = some rule)
      (further : Uses rules rule.children id') : Uses rules ns id'

theorem flattenChildren_congr {f g : String → Except TransformError (List Node)} {ns : List Node}
    (h : ∀ t cs id, .element t cs ∈ ns → isSch t "extends" = true → t.attr "rule" = some id →
      f id = g id) : flattenChildren f ns = flattenChildren g ns := by
  induction ns with
  | nil => rfl
  | cons n ns ih =>
    have hns := ih fun t cs id hm => h t cs id (List.mem_cons_of_mem n hm)
    have hn : flattenChild f n = flattenChild g n := by
      cases n with
      | text s => rfl
      | element t cs =>
        cases he : isSch t "extends" with
        | false => simp [flattenChild, he]
        | true =>
          cases hr : t.attr "rule" with
          | none => simp [flattenChild, he, hr]
          | some id => simpa [flattenChild, he, hr] using h t cs id List.mem_cons_self he hr
    simp only [flattenChildren, hn, hns]

/-- What nodes give depends only on the rules in force for the ids that they use. -/
theorem flattenChildren_extended_congr {rules rules' : List (String × Element)} (left : Nat)
    {ns : List Node} (h : ∀ id, Uses rules ns id → lookup? rules' id = lookup? rules id) :
    flattenChildren (extended rules' left) ns = flattenChildren (extended rules left) ns := by
  induction left generalizing ns with
  | zero =>
    apply flattenChildren_congr
    intro t cs id hm he hr
    have hid := h id (.direct hm he hr)
    simp only [extended, hid]
  | succ left ih =>
    apply flattenChildren_congr
    intro t cs id hm he hr
    have hid := h id (.direct hm he hr)
    simp only [extended, hid]
    cases hl : lookup? rules id with
    | none => rfl
    | some rule => exact ih fun id' hu => h id' (.through (.direct hm he hr) hl hu)

def PatternUses (rules : List (String × Element)) (pattern : Node) (id : String) : Prop :=
  ∃ t cs t' body, pattern = .element t cs ∧ isSch t "pattern" = true ∧ .element t' body ∈ cs ∧
    isSch t' "rule" = true ∧ isAbstract t' = false ∧ Uses rules body id

theorem withConcreteRules_congr {rules rules' : List (String × Element)} {n : Node}
    (h : ∀ id, PatternUses rules n id → lookup? rules' id = lookup? rules id) :
    withConcreteRules rules' n = withConcreteRules rules n := by
  cases n with
  | text s => rfl
  | element t cs =>
    cases hp : isSch t "pattern" with
    | false => simp [withConcreteRules, hp]
    | true =>
      have hcs : cs.mapM (concreteRule rules') = cs.mapM (concreteRule rules) := by
        apply mapM_congr
        intro c hc
        cases c with
        | text s => rfl
        | element t' body =>
          cases hr : isSch t' "rule" with
          | false => simp [concreteRule, hr]
          | true =>
            cases ha : isAbstract t' with
            | true => simp [concreteRule, hr, ha]
            | false =>
              have hbody : flattenChildren (extended rules' maxExtends) body =
                  flattenChildren (extended rules maxExtends) body := by
                apply flattenChildren_extended_congr
                intro id hu
                exact h id ⟨t, cs, t', body, rfl, hp, hc, hr, ha, hu⟩
              simp only [concreteRule, hr, ha, extend, hbody]
      simp only [withConcreteRules, hp, hcs]

theorem lookup?_append {α : Type} (xs ys : List (String × α)) (id : String) :
    lookup? (xs ++ ys) id = (lookup? ys id).or (lookup? xs id) := by
  simp only [lookup?, List.reverse_append, List.find?_append, Option.map_or]

theorem lookup?_isSome {α : Type} {defs : List (String × α)} {id : String} :
    (lookup? defs id).isSome = true ↔ id ∈ defs.map (·.1) := by
  simp [lookup?]

def patternRules (ns : List Node) : List Element :=
  ((ns.filterMap Node.element?).filter (·.is schematronUri "pattern")).flatMap
    (·.childrenNamed schematronUri "rule")

def rulesIn (ns : List Node) : Except TransformError (List (String × Element)) := do
  return (← (patternRules ns).mapM abstractRule?).filterMap id

theorem rulesIn_append_eq_ok {xs ys : List Node} {rules : List (String × Element)} :
    rulesIn (xs ++ ys) = .ok rules ↔
      ∃ dx dy, rulesIn xs = .ok dx ∧ rulesIn ys = .ok dy ∧ rules = dx ++ dy := by
  have happend : patternRules (xs ++ ys) = patternRules xs ++ patternRules ys := by
    simp only [patternRules, List.filterMap_append, List.filter_append, List.flatMap_append]
  simp only [rulesIn, happend, bind_eq_ok, mapM_append_eq_ok, pure_eq_ok, Except.ok.injEq]
  constructor
  · rintro ⟨_, ⟨rx, ry, hx, hy, rfl⟩, rfl⟩
    exact ⟨_, _, ⟨rx, hx, rfl⟩, ⟨ry, hy, rfl⟩, List.filterMap_append⟩
  · rintro ⟨_, _, ⟨rx, hx, rfl⟩, ⟨ry, hy, rfl⟩, rfl⟩
    exact ⟨_, ⟨rx, ry, hx, hy, rfl⟩, List.filterMap_append⟩

/-- The abstract rules that children of a schema define, once instances are replaced. -/
def definitions (schema : Element) (ns : List Node) :
    Except TransformError (List (String × Element)) := do
  let parts ← ns.mapM (concretePattern (abstractPatterns schema))
  rulesIn parts.flatten

def definedIds (schema : Element) (ns : List Node) : List String :=
  match definitions schema ns with
  | .ok rules => rules.map (·.1)
  | .error _ => []

theorem definitions_append_eq_ok {schema : Element} {xs ys : List Node}
    {rules : List (String × Element)} : definitions schema (xs ++ ys) = .ok rules ↔
      ∃ dx dy, definitions schema xs = .ok dx ∧ definitions schema ys = .ok dy ∧
        rules = dx ++ dy := by
  simp only [definitions, bind_eq_ok, mapM_append_eq_ok]
  constructor
  · rintro ⟨_, ⟨px, py, hx, hy, rfl⟩, h⟩
    rw [List.flatten_append, rulesIn_append_eq_ok] at h
    obtain ⟨dx, dy, hdx, hdy, rfl⟩ := h
    exact ⟨dx, dy, ⟨px, hx, hdx⟩, ⟨py, hy, hdy⟩, rfl⟩
  · rintro ⟨dx, dy, ⟨px, hx, hdx⟩, ⟨py, hy, hdy⟩, rfl⟩
    refine ⟨_, ⟨px, py, hx, hy, rfl⟩, ?_⟩
    rw [List.flatten_append, rulesIn_append_eq_ok]
    exact ⟨dx, dy, hdx, hdy, rfl⟩

theorem lookup?_eq_none_of_notMem {schema : Element} {ns : List Node}
    {rules : List (String × Element)} (h : definitions schema ns = .ok rules) {id : String}
    (hid : id ∉ definedIds schema ns) : lookup? rules id = none := by
  rw [definedIds, h] at hid
  rw [← Option.not_isSome_iff_eq_none, lookup?_isSome]
  exact hid

theorem isSome_lookup?_of_mem {schema : Element} {ns : List Node}
    {rules : List (String × Element)} (h : definitions schema ns = .ok rules) {id : String}
    (hid : id ∈ definedIds schema ns) : (lookup? rules id).isSome = true := by
  rw [definedIds, h] at hid
  exact lookup?_isSome.2 hid

/-- What a child of a schema becomes where the schema is expanded. -/
def becomes (schema : Element) (n : Node) : Except TransformError (List Node) := do
  let rules ← definitions schema schema.children
  let part ← concretePattern (abstractPatterns schema) n
  part.mapM (withConcreteRules rules)

theorem mapM_becomes_eq_ok {schema : Element} {rules : List (String × Element)}
    (h : definitions schema schema.children = .ok rules) {ns : List Node}
    {pieces : List (List Node)} : ns.mapM (becomes schema) = .ok pieces ↔
      ∃ parts, ns.mapM (concretePattern (abstractPatterns schema)) = .ok parts ∧
        parts.mapM (fun part => part.mapM (withConcreteRules rules)) = .ok pieces := by
  induction ns generalizing pieces with
  | nil => simp
  | cons n ns ih =>
    simp only [List.mapM_cons, bind_eq_ok, pure_eq_ok, Except.ok.injEq, ih, becomes, h]
    constructor
    · rintro ⟨piece, ⟨_, rfl, part, hpart, hpiece⟩, pieces', ⟨parts, hparts, hpieces⟩, rfl⟩
      refine ⟨_, ⟨part, hpart, parts, hparts, rfl⟩, ?_⟩
      simp [hpiece, hpieces]
    · rintro ⟨_, ⟨part, hpart, parts, hparts, rfl⟩, h⟩
      rw [List.mapM_cons] at h
      obtain ⟨piece, hpiece, h⟩ := bind_eq_ok.1 h
      obtain ⟨pieces', hpieces, h⟩ := bind_eq_ok.1 h
      exact ⟨piece, ⟨_, rfl, part, hpart, hpiece⟩, pieces', ⟨parts, hparts, hpieces⟩,
        Except.ok.inj h⟩

/-- A schema can be expanded exactly if its abstract rules are well-formed and each of its children
becomes something; the results stand in the order of the children. -/
theorem expand_eq_ok_iff {schema out : Element} : expand schema = .ok out ↔
    (∃ rules, definitions schema schema.children = .ok rules) ∧
      ∃ pieces, schema.children.mapM (becomes schema) = .ok pieces ∧
        out = { schema with children := pieces.flatten } := by
  simp only [expand, instantiatePatterns, resolveRules, bind_eq_ok, pure_eq_ok, Except.ok.injEq]
  constructor
  · rintro ⟨_, ⟨parts, hparts, rfl⟩, rules, hrules, ns, hns, rfl⟩
    have hdefs : definitions schema schema.children = .ok rules := by
      rw [definitions, hparts]
      exact hrules
    obtain ⟨pieces, hpieces, rfl⟩ := mapM_flatten_eq_ok.1 hns
    exact ⟨⟨rules, hdefs⟩, pieces, (mapM_becomes_eq_ok hdefs).2 ⟨parts, hparts, hpieces⟩, rfl⟩
  · rintro ⟨⟨rules, hdefs⟩, pieces, hpieces, rfl⟩
    obtain ⟨parts, hparts, hp⟩ := (mapM_becomes_eq_ok hdefs).1 hpieces
    have hrules : rulesIn parts.flatten = .ok rules := by
      rw [definitions, hparts] at hdefs
      exact hdefs
    exact ⟨_, ⟨parts, hparts, rfl⟩, rules, hrules, pieces.flatten,
      mapM_flatten_eq_ok.2 ⟨pieces, hp, rfl⟩, rfl⟩

def IsInstance (n : Node) : Prop :=
  ∃ t cs, n = .element t cs ∧ isSch t "pattern" = true ∧ isAbstract t = false ∧
    (t.attr "is-a").isSome = true

/-- Whether a pattern uses an abstract rule of an instance that is in force, since no child after
the instance defines the id again. -/
def DependsOn (schema : Element) (p q : Node) (after : List Node) : Prop :=
  ∃ rules part n id, definitions schema schema.children = .ok rules ∧
    concretePattern (abstractPatterns schema) p = .ok part ∧ n ∈ part ∧ PatternUses rules n id ∧
    id ∈ definedIds schema [q] ∧ id ∉ definedIds schema after

theorem abstractPatterns_without {schema : Element} {xs ys : List Node} {q : Node}
    (hschema : schema.children = xs ++ q :: ys) (hq : IsInstance q) :
    abstractPatterns { schema with children := xs ++ ys } = abstractPatterns schema := by
  obtain ⟨t, cs, rfl, _, ha, _⟩ := hq
  have hnone : ([(⟨t, cs⟩ : Element)].filter (·.is schematronUri "pattern")).filterMap
      (fun p => if isAbstract p.tag then (p.attr "id").map fun id => (id, p) else none) = [] := by
    cases (⟨t, cs⟩ : Element).is schematronUri "pattern" <;> simp [ha]
  have hsplit : xs ++ .element t cs :: ys = xs ++ [.element t cs] ++ ys := by simp
  simp only [abstractPatterns, Element.childrenNamed, Element.elements, hschema, hsplit,
    List.filterMap_append, List.filter_append, List.filterMap_cons_some (Node.element?.eq_1 t cs),
    List.filterMap_nil, hnone, List.append_nil]

/-- Without an instance the table lacks its rules and is otherwise the same. -/
theorem definitions_without {schema : Element} {xs ys : List Node} {q : Node}
    (hschema : schema.children = xs ++ q :: ys) (hq : IsInstance q)
    {rules rules' : List (String × Element)}
    (h : definitions schema schema.children = .ok rules)
    (h' : definitions { schema with children := xs ++ ys } (xs ++ ys) = .ok rules') :
    ∃ dx dq dy, definitions schema [q] = .ok dq ∧ definitions schema ys = .ok dy ∧
      rules = dx ++ (dq ++ dy) ∧ rules' = dx ++ dy := by
  have hsame : definitions { schema with children := xs ++ ys } (xs ++ ys) =
      definitions schema (xs ++ ys) := by
    simp only [definitions, abstractPatterns_without hschema hq]
  rw [hsame] at h'
  obtain ⟨dx', dy', hdx', hdy', rfl⟩ := definitions_append_eq_ok.1 h'
  rw [hschema, ← List.singleton_append] at h
  obtain ⟨dx, dqy, hdx, hdqy, rfl⟩ := definitions_append_eq_ok.1 h
  obtain ⟨dq, dy, hdq, hdy, rfl⟩ := definitions_append_eq_ok.1 hdqy
  rw [hdx] at hdx'
  rw [hdy] at hdy'
  cases hdx'
  cases hdy'
  exact ⟨_, dq, _, hdq, hdy, rfl, rfl⟩

/-- An id is looked up alike with and without an instance if the instance does not define it, or if
a child after the instance does. -/
theorem lookup?_without {schema : Element} {q : Node} {ys : List Node}
    {dx dq dy : List (String × Element)} (hq : definitions schema [q] = .ok dq)
    (hy : definitions schema ys = .ok dy) {id : String}
    (hid : id ∈ definedIds schema [q] → id ∈ definedIds schema ys) :
    lookup? (dx ++ dy) id = lookup? (dx ++ (dq ++ dy)) id := by
  simp only [lookup?_append]
  by_cases hmem : id ∈ definedIds schema [q]
  · obtain ⟨rule, hrule⟩ := Option.isSome_iff_exists.1 (isSome_lookup?_of_mem hy (hid hmem))
    simp [hrule]
  · have hnone := lookup?_eq_none_of_notMem hq hmem
    simp [hnone]

/-- Where a schema can be expanded with an instance of an abstract pattern and without it, every
other child becomes the same in both, unless it uses an abstract rule of the instance that is in
force. -/
theorem becomes_without_instance {schema out out' : Element} {xs ys : List Node} {p q : Node}
    (hschema : schema.children = xs ++ q :: ys) (hq : IsInstance q)
    (h : expand schema = .ok out)
    (h' : expand { schema with children := xs ++ ys } = .ok out') (hp : p ∈ xs ++ ys)
    (hindependent : ¬ DependsOn schema p q ys) :
    ∃ piece, becomes schema p = .ok piece ∧
      becomes { schema with children := xs ++ ys } p = .ok piece := by
  obtain ⟨⟨rules, hrules⟩, pieces, hpieces, _⟩ := expand_eq_ok_iff.1 h
  obtain ⟨⟨rules', hrules'⟩, pieces', hpieces', _⟩ := expand_eq_ok_iff.1 h'
  have hmem : p ∈ schema.children := by
    rw [hschema]
    rcases List.mem_append.1 hp with hx | hy
    · exact List.mem_append_left _ hx
    · exact List.mem_append_right _ (List.mem_cons_of_mem q hy)
  obtain ⟨piece, hpiece⟩ := ok_of_mem_mapM hpieces hmem
  obtain ⟨part, hpart, hconcrete⟩ : ∃ part,
      concretePattern (abstractPatterns schema) p = .ok part ∧
        part.mapM (withConcreteRules rules) = .ok piece := by
    rw [becomes, hrules, ok_bind] at hpiece
    exact bind_eq_ok.1 hpiece
  obtain ⟨dx, dq, dy, hdq, hdy, rfl, rfl⟩ := definitions_without hschema hq hrules hrules'
  have hsame : part.mapM (withConcreteRules (dx ++ dy)) =
      part.mapM (withConcreteRules (dx ++ (dq ++ dy))) := by
    apply mapM_congr
    intro n hn
    apply withConcreteRules_congr
    intro id hused
    apply lookup?_without hdq hdy
    intro hid
    by_contra hlater
    exact hindependent ⟨_, part, n, id, hrules, hpart, hn, hused, hid, hlater⟩
  refine ⟨piece, hpiece, ?_⟩
  rw [becomes, hrules', ok_bind, abstractPatterns_without hschema hq, hpart, ok_bind, hsame,
    hconcrete]

def extendedIds (ns : List Node) : List String :=
  (patternRules ns).flatMap fun rule =>
    (rule.childrenNamed schematronUri "extends").filterMap (·.attr "rule")

/-- Whether the rules of an instance extend only abstract rules that the instance itself defines. -/
def ExtendsOwn (schema : Element) (p : Node) : Prop :=
  ∀ part, concretePattern (abstractPatterns schema) p = .ok part →
    ∀ id ∈ extendedIds part, id ∈ definedIds schema [p]

/-- An abstract pattern whose rule extends an abstract rule with the parameter in its test. -/
def limitedPattern : Node :=
  schNode "pattern" [("abstract", "true"), ("id", "limited")] [
    schNode "rule" [("abstract", "true"), ("id", "limit")] [
      schNode "assert" [("test", "$field")] []],
    schNode "rule" [("context", "item")] [schNode "extends" [("rule", "limit")] []]]

def limitedBy (field : String) : Node :=
  schNode "pattern" [("is-a", "limited")] [
    schNode "param" [("name", "field"), ("value", field)] []]

def limitedSchema (first second : String) : Element where
  tag := ⟨.inNamespace schematronUri "sch" "schema", [], []⟩
  children := [limitedPattern, limitedBy first, limitedBy second]

def testsOf (ns : List Node) : List String := (Node.elementsOf ns).filterMap (·.attr "test")

theorem isInstance_limitedBy (field : String) : IsInstance (limitedBy field) :=
  ⟨_, _, rfl, by decide, by decide, by decide⟩

theorem extendsOwn_limitedBy : ExtendsOwn (limitedSchema "a" "b") (limitedBy "a") := by
  intro part hpart id hid
  have hextended : (concretePattern (abstractPatterns (limitedSchema "a" "b"))
      (limitedBy "a")).toOption.map extendedIds = some ["limit"] := by decide +kernel
  have hdefined : definedIds (limitedSchema "a" "b") [limitedBy "a"] = ["limit"] := by
    decide +kernel
  rw [hpart] at hextended
  rw [Option.some.inj hextended] at hid
  rw [hdefined]
  exact hid

/-- The later instance changes nothing in itself by the earlier one, which is overridden. -/
theorem becomes_without_instance_limited : ∃ out out',
    expand (limitedSchema "b" "a") = .ok out ∧
      expand { limitedSchema "b" "a" with children := [limitedPattern] ++ [limitedBy "a"] } =
        .ok out' ∧
      IsInstance (limitedBy "b") ∧
      ¬ DependsOn (limitedSchema "b" "a") (limitedBy "a") (limitedBy "b") [limitedBy "a"] ∧
      ∃ piece, becomes (limitedSchema "b" "a") (limitedBy "a") = .ok piece ∧
        becomes { limitedSchema "b" "a" with children := [limitedPattern] ++ [limitedBy "a"] }
          (limitedBy "a") = .ok piece := by
  obtain ⟨out, h⟩ : ∃ out, expand (limitedSchema "b" "a") = .ok out :=
    exists_of_isSome (by decide +kernel)
  obtain ⟨out', h'⟩ : ∃ out', expand { limitedSchema "b" "a" with
      children := [limitedPattern] ++ [limitedBy "a"] } = .ok out' :=
    exists_of_isSome (by decide +kernel)
  have hfirst : definedIds (limitedSchema "b" "a") [limitedBy "b"] = ["limit"] := by
    decide +kernel
  have hsecond : definedIds (limitedSchema "b" "a") [limitedBy "a"] = ["limit"] := by
    decide +kernel
  have hindependent :
      ¬ DependsOn (limitedSchema "b" "a") (limitedBy "a") (limitedBy "b") [limitedBy "a"] := by
    rintro ⟨_, _, _, id, _, _, _, _, hmem, hnot⟩
    rw [hfirst] at hmem
    rw [hsecond] at hnot
    exact hnot hmem
  have hschema : (limitedSchema "b" "a").children =
      [limitedPattern] ++ limitedBy "b" :: [limitedBy "a"] := rfl
  have hmem : limitedBy "a" ∈ [limitedPattern] ++ [limitedBy "a"] := by simp
  exact ⟨out, out', h, h', isInstance_limitedBy "b", hindependent,
    becomes_without_instance hschema (isInstance_limitedBy "b") h h' hmem hindependent⟩

/-- An instance whose rules extend only its own abstract rules can still become something else by an
instance after it: of two instances of one abstract pattern, the first takes over the test of the
second. -/
theorem not_forall_becomes_without_instance :
    ¬ ∀ (schema out out' : Element) (xs ys : List Node) (p q : Node),
      schema.children = xs ++ q :: ys → p ∈ xs ++ ys → IsInstance p → IsInstance q →
      ExtendsOwn schema p → expand schema = .ok out →
      expand { schema with children := xs ++ ys } = .ok out' →
      ∃ piece, becomes schema p = .ok piece ∧
        becomes { schema with children := xs ++ ys } p = .ok piece := by
  intro h
  obtain ⟨out, hout⟩ : ∃ out, expand (limitedSchema "a" "b") = .ok out :=
    exists_of_isSome (by decide +kernel)
  obtain ⟨out', hout'⟩ : ∃ out', expand { limitedSchema "a" "b" with
      children := [limitedPattern, limitedBy "a"] ++ [] } = .ok out' :=
    exists_of_isSome (by decide +kernel)
  obtain ⟨piece, hwith, hwithout⟩ := h (limitedSchema "a" "b") out out'
    [limitedPattern, limitedBy "a"] [] (limitedBy "a") (limitedBy "b") rfl (by simp)
    (isInstance_limitedBy "a") (isInstance_limitedBy "b") extendsOwn_limitedBy hout hout'
  have htaken : (becomes (limitedSchema "a" "b") (limitedBy "a")).toOption.map testsOf =
      some ["b"] := by decide +kernel
  have hown : (becomes { limitedSchema "a" "b" with
      children := [limitedPattern, limitedBy "a"] ++ [] } (limitedBy "a")).toOption.map testsOf =
        some ["a"] := by decide +kernel
  rw [hwith] at htaken
  rw [hwithout, htaken] at hown
  exact absurd hown (by decide)

end Schematron.Expansion
