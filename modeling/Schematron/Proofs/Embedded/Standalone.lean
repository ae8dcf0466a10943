import Schematron.Proofs.Embedded.Contexts
import Schematron.Proofs.Execution.Firing
import Schematron.Proofs.Expansion.Patterns
import Schematron.Proofs.Inclusion.References
import Schematron.Proofs.Report.Entries
import Schematron.Rules.Schema

/-!
# Rules in a grammar and rules by themselves

The annotations of a grammar may hold what a schema holds. Such elements are sorted by their names
when they are collected, the groups of diagnostics become one, and bindings are added. None of this
matters: the grammar compiles to what a schema with these elements in their original order compiles
to, up to the added bindings (`ofSchema_embedded`).
-/
namespace Schematron.Embedded
open Xml Sequencing

def markup (root : Element) : List Element :=
  (grammarSites root).flatMap fun s => s.note.elements.filter isMarkup

def partNames : List String := ["title", "ns", "p", "let", "phase", "pattern", "diagnostics"]

namespace Parts

def ofElements (es : List Element) : Parts where
  title := (named "title" es).head?
  namespaces := named "ns" es
  paragraphs := named "p" es
  lets := named "let" es
  phases := named "phase" es
  patterns := named "pattern" es
  diagnostics := named "diagnostics" es

theorem ofElements_eq (es : List Element) : ofElements es = plus {} es (named "pattern" es) := by
  simp [ofElements, plus]

end Parts

theorem markup_eq (root : Element) : markup root = (noteElements root).filter isMarkup := by
  rw [markup, noteElements, List.filter_flatMap]

theorem named_markup (l : String) (root : Element) :
    named l (markup root) = named l (noteElements root) := by
  rw [markup_eq, named, List.filter_filter]
  apply List.filter_congr
  intro e _
  cases he : e.is schematronUri l with
  | false => rfl
  | true =>
    have hmarkup : isMarkup e = true := (Bool.and_eq_true_iff.1 he).1
    rw [hmarkup]
    rfl

/-- Whether the annotations of a grammar hold nothing but what a schema may hold. -/
def HoldsParts (root : Element) : Prop := ∀ e ∈ markup root, e.name.localName ∈ partNames

theorem HoldsParts.is_eq_false {root e : Element} (h : HoldsParts root) (he : e ∈ noteElements root)
    {l : String} (hl : l ∉ partNames) : e.is schematronUri l = false := by
  cases hmarkup : isMarkup e with
  | false => rw [Element.is, QName.is, ← isMarkup, hmarkup, Bool.false_and]
  | true =>
    have hname := h e (by rw [markup_eq]; exact List.mem_filter.2 ⟨he, hmarkup⟩)
    rw [is_eq hmarkup, beq_eq_false_iff_ne]
    rintro rfl
    exact hl hname

/-- Without rules and assertions of their own, annotations have no patterns but those they hold. -/
theorem HoldsParts.patterns_eq {root : Element} (h : HoldsParts root) {s : Site}
    (hs : s ∈ grammarSites root) (t : Target) :
    s.bare = [] ∧ s.patterns t = named "pattern" s.note.elements := by
  have hother {e : Element} (he : e ∈ s.note.elements) {l : String} (hl : l ∉ partNames) :
      e.is schematronUri l = false := h.is_eq_false (List.mem_flatMap.2 ⟨s, hs, he⟩) hl
  have hbare : s.bare = [] := by
    apply List.filter_eq_nil_iff.2
    intro e he
    have hassert : "assert" ∉ partNames := by decide
    have hreport : "report" ∉ partNames := by decide
    simp [Parts.isBare, hother he hassert, hother he hreport]
  have hpattern : ∀ e ∈ s.note.elements,
      pattern? e = Option.guard (·.is schematronUri "pattern") e := by
    intro e he
    have hinclude : "include" ∉ partNames := by decide
    have hrule : "rule" ∉ partNames := by decide
    simp [pattern?, isPatternOrInclude, hother he hinclude, hother he hrule, Option.guard]
  refine ⟨hbare, ?_⟩
  rw [Site.patterns, List.filterMap_congr hpattern, List.filterMap_eq_filter, hbare]
  simp [named]

theorem gathered_of_holdsParts {root : Element} (h : HoldsParts root) :
    gathered root = (Parts.ofElements (markup root)).schema root (.ofSchema root) := by
  have hpatterns : notePatterns root = named "pattern" (noteElements root) := by
    rw [notePatterns, noteElements, named, List.filter_flatMap]
    exact List.flatMap_congr fun s hs => (h.patterns_eq hs _).2
  rw [gathered, hpatterns, Parts.ofElements_eq]
  simp [Parts.plus, named_markup]

/-- The schema of a grammar whose annotations hold nothing but parts of a schema. -/
theorem schema?_of_holdsParts {root : Element} (hroot : root.is xmlSchemaUri "schema" = true)
    (h : HoldsParts root) : schema? root =
      .ok ((Parts.ofElements (markup root)).schema root (.ofSchema root)) := by
  rw [← gathered_of_holdsParts h]
  apply schema?_of_hasContext hroot
  intro s hs hbare
  exact absurd (h.patterns_eq hs (.ofSchema root)).1 hbare

section
variable {es : List Element} {root : Element} {t : Target}

theorem elements_schema (es : List Element) (root : Element) (t : Target) :
    ((Parts.ofElements es).schema root t).elements =
      (named "title" es).head?.toList ++ named "ns" es ++
        (addedTo es root t).map namespaceElement ++ named "p" es ++ named "let" es ++
        named "phase" es ++ named "pattern" es ++ mergedDiagnostics (named "diagnostics" es) := by
  rw [Parts.ofElements_eq, elements_plus]

/-- What the schema of a grammar has under each name. -/
theorem childrenNamed_schema (es : List Element) (root : Element) (t : Target) (l : String) :
    ((Parts.ofElements es).schema root t).childrenNamed schematronUri l =
      if l = "title" then (named "title" es).head?.toList
      else if l = "ns" then named "ns" es ++ (addedTo es root t).map namespaceElement
      else if l = "diagnostics" then mergedDiagnostics (named "diagnostics" es)
      else if l ∈ partNames then named l es else [] := by
  have hpatterns : ∀ e ∈ named "pattern" es, isPatternOrInclude e = true := by
    intro e he
    rw [isPatternOrInclude, (List.mem_filter.1 he).2]
    rfl
  rw [Parts.ofElements_eq, childrenNamed_plus hpatterns, named_named]
  simp only [partNames, List.mem_cons, List.not_mem_nil, or_false]
  grind

theorem hasReference_namespaceElement (b : String × String) :
    Inclusion.hasReference [(namespaceElement b).toNode] = false := by
  have hno : Inclusion.isReference (namespaceElement b).tag = false := by
    simp [Inclusion.isReference, Inclusion.Reference.of?, namespaceElement, sch, Element.ofName,
      Element.withAttr, QName.is, QName.inNamespace, schematronUri, xincludeUri]
  have hchildren : (namespaceElement b).children = [] := rfl
  rw [Element.toNode, Inclusion.hasReference_element, hno, hchildren]
  rfl

theorem hasReference_mergedDiagnostics {groups : List Element}
    (h : ∀ e ∈ groups, Inclusion.hasReference [e.toNode] = false) :
    (mergedDiagnostics groups).any (fun e => Inclusion.hasReference [e.toNode]) = false := by
  have hflat : Inclusion.hasReference (groups.flatMap (·.children)) = false := by
    induction groups with
    | nil => rfl
    | cons g gs ih =>
      have hg := h g List.mem_cons_self
      simp only [Element.toNode, Inclusion.hasReference_element, Bool.or_eq_false_iff] at hg
      rw [List.flatMap_cons, Inclusion.hasReference_append, hg.1.2,
        ih fun e he => h e (List.mem_cons_of_mem g he)]
      rfl
  have hno : Inclusion.isReference (sch "diagnostics").tag = false := by
    simp [Inclusion.isReference, Inclusion.Reference.of?, sch, Element.ofName, QName.is,
      QName.inNamespace, schematronUri, xincludeUri]
  cases groups with
  | nil => rfl
  | cons g gs => simp [mergedDiagnostics, Element.toNode, hno, ← hflat]

/-- Sorting elements without references brings none in. -/
theorem hasReference_schema (h : es.any (fun e => Inclusion.hasReference [e.toNode]) = false) :
    Inclusion.hasReference ((Parts.ofElements es).schema root t).children = false := by
  have hnone : ∀ e ∈ es, Inclusion.hasReference [e.toNode] = false := by
    simpa using h
  have hpart (l : String) : (named l es).any (fun e => Inclusion.hasReference [e.toNode]) = false := by
    rw [List.any_eq_false]
    intro e he
    simp [hnone e (List.mem_of_mem_filter he)]
  have htitle : (named "title" es).head?.toList.any
      (fun e => Inclusion.hasReference [e.toNode]) = false := by
    rw [List.any_eq_false]
    intro e he
    have hmem := List.mem_of_mem_head? (Option.mem_toList.1 he)
    simp [hnone e (List.mem_of_mem_filter hmem)]
  have hmerged : (mergedDiagnostics (named "diagnostics" es)).any
      (fun e => Inclusion.hasReference [e.toNode]) = false :=
    hasReference_mergedDiagnostics fun e he => hnone e (List.mem_of_mem_filter he)
  have hfresh (bs : List (String × String)) : (bs.map namespaceElement).any
      (fun e => Inclusion.hasReference [e.toNode]) = false := by
    simp [hasReference_namespaceElement]
  simp only [Inclusion.hasReference_children, elements_schema, List.any_append, hpart, htitle,
    hmerged, hfresh, Bool.or_false]

end

/-- Two schemas say the same, except that the first one has further bindings. -/
structure SaysSame (added : List (String × String)) (a b : Element) : Prop where
  isSchema : a.is schematronUri "schema" = true ∧ b.is schematronUri "schema" = true
  namespaces : a.childrenNamed schematronUri "ns" =
    b.childrenNamed schematronUri "ns" ++ added.map namespaceElement
  title : a.firstChild schematronUri "title" = b.firstChild schematronUri "title"
  lets : a.childrenNamed schematronUri "let" = b.childrenNamed schematronUri "let"
  phases : a.childrenNamed schematronUri "phase" = b.childrenNamed schematronUri "phase"
  patterns : a.childrenNamed schematronUri "pattern" = b.childrenNamed schematronUri "pattern"
  diagnostics : (a.childrenNamed schematronUri "diagnostics").flatMap
      (·.childrenNamed schematronUri "diagnostic") =
    (b.childrenNamed schematronUri "diagnostics").flatMap
      (·.childrenNamed schematronUri "diagnostic")
  defaultPhase : a.attr "defaultPhase" = b.attr "defaultPhase"
  schemaVersion : a.attr "schemaVersion" = b.attr "schemaVersion"

theorem mapM_namespaceBinding (bs : List (String × String)) :
    (bs.map namespaceElement).mapM Compilation.namespaceBinding =
      (.ok bs : Except TransformError _) := by
  induction bs with
  | nil => rfl
  | cons b bs ih =>
    have hb : (Compilation.namespaceBinding (namespaceElement b) : Except TransformError _) =
        .ok b := by
      simp [Compilation.namespaceBinding, namespaceElement, sch]
    rw [List.map_cons, List.mapM_cons, ih, hb]
    rfl

/-- They compile alike, up to these bindings. -/
theorem schema_of_saysSame {check : String → Except TransformError Unit}
    {added : List (String × String)} {a b : Element} (h : SaysSame added a b)
    (asked : Option String) : Compilation.schema check asked a =
      (fun v => { v with namespaces := v.namespaces ++ added }) <$>
        Compilation.schema check asked b := by
  have hns : (a.childrenNamed schematronUri "ns").mapM Compilation.namespaceBinding =
      (· ++ added) <$> ((b.childrenNamed schematronUri "ns").mapM Compilation.namespaceBinding :
        Except TransformError _) := by
    rw [h.namespaces, List.mapM_append, mapM_namespaceBinding]
    cases ((b.childrenNamed schematronUri "ns").mapM Compilation.namespaceBinding :
      Except TransformError _) <;> rfl
  have hphase : (Compilation.phase? a asked : Except TransformError _) =
      Compilation.phase? b asked := by
    simp only [Compilation.phase?, Compilation.requestedPhase, h.defaultPhase, h.phases]
  have hlets : Compilation.bindings check a = Compilation.bindings check b := by
    rw [Compilation.bindings, h.lets, Compilation.bindings]
  have htitle : Compilation.titleOf a = Compilation.titleOf b := by
    rw [Compilation.titleOf, h.title, Compilation.titleOf]
  simp only [Compilation.schema, h.isSchema.1, h.isSchema.2, if_true, hns, hphase, hlets, htitle,
    h.patterns, h.diagnostics, h.schemaVersion, map_bind, bind_map_left]
  -- both go through the same steps from here on, with the bindings carried along
  refine bind_congr fun namespaces => bind_congr fun own => bind_congr fun phase =>
    bind_congr fun ofPhase => bind_congr fun patterns => bind_congr fun diagnostics => ?_
  cases Compilation.missingDiagnostic? patterns diagnostics with
  | some id => rfl
  | none => cases Compilation.expression check "name()" <;> rfl

theorem flatMap_mergedDiagnostics (groups : List Element) (l : String) :
    (mergedDiagnostics groups).flatMap (·.childrenNamed schematronUri l) =
      groups.flatMap (·.childrenNamed schematronUri l) := by
  cases groups with
  | nil => rfl
  | cons g gs =>
    simp only [mergedDiagnostics, List.flatMap_cons, List.flatMap_nil, List.append_nil,
      Element.childrenNamed, Element.elements, List.filterMap_append, List.filter_append,
      List.filterMap_flatMap, List.filter_flatMap]

/-- The schema of a grammar says the same as a schema without attributes that holds the elements of
the annotations. -/
theorem saysSame_schema {root schema : Element} {t : Target}
    (hschema : schema.is schematronUri "schema" = true) (hattributes : schema.tag.attributes = [])
    (helements : schema.elements = markup root) :
    SaysSame (addedTo (markup root) root t)
      ((Parts.ofElements (markup root)).schema root t) schema := by
  have hnamed (l : String) : schema.childrenNamed schematronUri l = named l (markup root) := by
    rw [Element.childrenNamed, helements]
    rfl
  have hchildren := childrenNamed_schema (markup root) root t
  have htag : ((Parts.ofElements (markup root)).schema root t).tag =
      (((sch "schema").declare (some "sch") schematronUri).setAttr "queryBinding" "xslt").tag := by
    rw [Parts.schema, Report.pushAll_eq]
  have hattr (l : String) : schema.attr l = none := by
    rw [Element.attr, Tag.attr, hattributes]
    rfl
  constructor
  case isSchema => exact ⟨by rw [Element.is, Element.name, htag]; rfl, hschema⟩
  case namespaces => simp [hchildren, hnamed]
  case title =>
    rw [Element.firstChild_eq_head?, Element.firstChild_eq_head?, hchildren, hnamed]
    simp
  case lets => simp [hchildren, hnamed, partNames]
  case phases => simp [hchildren, hnamed, partNames]
  case patterns => simp [hchildren, hnamed, partNames]
  case diagnostics =>
    rw [hchildren, hnamed]
    exact flatMap_mergedDiagnostics _ _
  case defaultPhase =>
    rw [hattr, Element.attr, htag]
    rfl
  case schemaVersion =>
    rw [hattr, Element.attr, htag]
    rfl

/-- Schemas that say the same still do when they are expanded to the same patterns. -/
theorem SaysSame.expand {added : List (String × String)} {a b a' b' : Element}
    (h : SaysSame added a b) (ha : Expansion.expand a = .ok a') (hb : Expansion.expand b = .ok b')
    (hpatterns : a'.childrenNamed schematronUri "pattern" =
      b'.childrenNamed schematronUri "pattern") : SaysSame added a' b' := by
  obtain ⟨hatag, haothers⟩ := Expansion.expand_eq_ok ha
  obtain ⟨hbtag, hbothers⟩ := Expansion.expand_eq_ok hb
  have hachildren {l : String} (hl : l ≠ "pattern") :=
    Expansion.childrenNamed_of_otherNodes haothers hl
  have hbchildren {l : String} (hl : l ≠ "pattern") :=
    Expansion.childrenNamed_of_otherNodes hbothers hl
  constructor
  case isSchema => simpa only [Element.is, Element.name, hatag, hbtag] using h.isSchema
  case namespaces => rw [hachildren (by decide), hbchildren (by decide), h.namespaces]
  case title =>
    have htitle := h.title
    simp only [Element.firstChild_eq_head?] at htitle ⊢
    rw [hachildren (by decide), hbchildren (by decide), htitle]
  case lets => rw [hachildren (by decide), hbchildren (by decide), h.lets]
  case phases => rw [hachildren (by decide), hbchildren (by decide), h.phases]
  case patterns => exact hpatterns
  case diagnostics => rw [hachildren (by decide), hbchildren (by decide), h.diagnostics]
  case defaultPhase => simpa only [Element.attr, hatag, hbtag] using h.defaultPhase
  case schemaVersion => simpa only [Element.attr, hatag, hbtag] using h.schemaVersion

theorem explicitBindings_eq (root : Element) : explicitBindings root = named "ns" (markup root) := by
  rw [explicitBindings_eq_noteElements, named_markup]

theorem applyStages_assertions (s : Surroundings) {schema : Element}
    (h : Inclusion.hasReference schema.children = false) :
    applyStages s SchemaKind.assertions.stages schema =
      (Expansion.expand schema).mapError fun e => ⟨.expand, e⟩ := by
  simp only [applyStages, SchemaKind.stages, List.foldlM_cons, List.foldlM_nil, Stage.apply,
    Inclusion.expand_eq_self s.resolver s.base h]
  exact bind_pure ((Expansion.expand schema).mapError fun e => RuleError.mk .expand e)

theorem applyStages_grammar (s : Surroundings) {root schema : Element}
    (hschema : schema? root = .ok schema) (h : Inclusion.hasReference schema.children = false) :
    applyStages s SchemaKind.grammar.stages root =
      (Expansion.expand schema).mapError fun e => ⟨.expand, e⟩ := by
  rw [← applyStages_assertions s h]
  simp only [applyStages, SchemaKind.stages, List.foldlM_cons, Stage.apply, hschema]
  rfl

/-- Whether the rules are compiled from the annotations of a grammar or from a schema of their own
without attributes, in which the elements of the annotations stand in the same order, is the same:
either both fail with the same error, or both give the same validator, in which the grammar has
further bindings. Each of these binds another prefix, and one that no element of the annotations
binds. -/
theorem ofSchema_embedded {D : Type} (p : Processor D) (phase : Option String)
    (s s' : Surroundings) {root schema : Element}
    (hroot : root.is xmlSchemaUri "schema" = true) (hparts : HoldsParts root)
    (hschema : schema.is schematronUri "schema" = true) (hattributes : schema.tag.attributes = [])
    (helements : schema.elements = markup root)
    (hreferences : Inclusion.hasReference schema.children = false) :
    (applyStages s SchemaKind.grammar.stages root >>= Validator.ofSchema p phase) =
        (fun v => { v with namespaces := v.namespaces ++ addedBindings root }) <$>
          (applyStages s' SchemaKind.assertions.stages schema >>= Validator.ofSchema p phase) ∧
      ((addedBindings root).map (·.1)).Nodup ∧
      ∀ b ∈ addedBindings root, ∀ e ∈ schema.childrenNamed schematronUri "ns",
        e.attr "prefix" ≠ some b.1 := by
  have hadded : addedTo (markup root) root (.ofSchema root) = addedBindings root := by
    rw [addedTo, addedBindings, explicitBindings_eq]
  obtain ⟨hnodup, hnew⟩ := nodup_freshBindings
    ((explicitBindings root).filterMap (·.attr "prefix"))
    (implicitBindings root (.ofSchema root))
  refine ⟨?_, hnodup, ?_⟩
  · have hsame := saysSame_schema (t := .ofSchema root) hschema hattributes helements
    rw [hadded] at hsame
    have hcollected : Inclusion.hasReference
        ((Parts.ofElements (markup root)).schema root (.ofSchema root)).children = false := by
      apply hasReference_schema
      rw [← helements, ← Inclusion.hasReference_children, hreferences]
    -- without references only patterns are expanded, and what they become depends on them alone
    rw [applyStages_grammar s (schema?_of_holdsParts hroot hparts) hcollected,
      applyStages_assertions s' hreferences, map_bind]
    apply bind_eq_bind_of_map (g := Expansion.patternNodes)
    · rw [← mapError_map, ← mapError_map,
        Expansion.patternNodes_expand (Expansion.patternNodes_eq_iff.2 hsame.patterns)]
    · intro a b ha hb hpatterns
      have hexpanded := hsame.expand (mapError_eq_ok.1 ha) (mapError_eq_ok.1 hb)
        (Expansion.patternNodes_eq_iff.1 hpatterns)
      simp only [Validator.ofSchema, schema_of_saysSame hexpanded, mapError_map]
  · intro b hb e he hprefix
    apply hnew b hb
    rw [Element.childrenNamed, helements] at he
    rw [explicitBindings_eq]
    exact List.mem_filterMap.2 ⟨e, he, hprefix⟩

def itemPattern : Node :=
  schNode "pattern" [("id", "items")] [
    schNode "rule" [("context", "item")] [
      schNode "assert" [("test", "note"), ("diagnostics", "why")] [.text "A note is missing"]]]

def itemDiagnostics : Node :=
  schNode "diagnostics" [] [schNode "diagnostic" [("id", "why")] [.text "Items need notes"]]

/-- A grammar with the pattern at its start and the other elements at a declaration. -/
def scatteredGrammar : Element where
  tag := orderRoot
  children := [
    annotation [itemPattern],
    xsNode "element" [("name", "order")] [
      annotation [schNode "diagnostics" [] [], schNode "title" [] [.text "Orders"]],
      annotation [schNode "let" [("name", "limit"), ("value", "10")] [], itemDiagnostics]]]

def gatheredSchema : Element where
  tag := ⟨.inNamespace schematronUri "s" "schema", [], []⟩
  children := [itemPattern, schNode "diagnostics" [] [], schNode "title" [] [.text "Orders"],
    schNode "let" [("name", "limit"), ("value", "10")] [], itemDiagnostics]

def nowhere : Surroundings := ⟨⟨none, "/"⟩, .ofList []⟩

/-- Both compile, and the grammar binds the prefixes of its root and one for its target namespace. -/
theorem ofSchema_embedded_scattered : ∃ v,
    (applyStages nowhere SchemaKind.assertions.stages gatheredSchema >>=
      Validator.ofSchema Validator.Run.orderProcessor none) = .ok v ∧
    (applyStages nowhere SchemaKind.grammar.stages scatteredGrammar >>=
      Validator.ofSchema Validator.Run.orderProcessor none) =
        .ok { v with namespaces := v.namespaces ++ addedBindings scatteredGrammar } ∧
    addedBindings scatteredGrammar =
      [("xs", xmlSchemaUri), ("sch", schematronUri), ("tns", "urn:po")] := by
  obtain ⟨v, hv⟩ : ∃ v, (applyStages nowhere SchemaKind.assertions.stages gatheredSchema >>=
      Validator.ofSchema Validator.Run.orderProcessor none) = .ok v :=
    exists_of_isSome (by decide +kernel)
  have hroot : scatteredGrammar.is xmlSchemaUri "schema" = true := by decide
  have hparts : HoldsParts scatteredGrammar := by
    unfold HoldsParts
    decide +kernel
  have hschema : gatheredSchema.is schematronUri "schema" = true := by decide
  have helements : gatheredSchema.elements = markup scatteredGrammar := by rfl
  have h := (ofSchema_embedded Validator.Run.orderProcessor none nowhere nowhere hroot hparts hschema
    rfl helements (by decide +kernel)).1
  refine ⟨v, hv, ?_, by decide +kernel⟩
  rw [h, hv]
  rfl

end Schematron.Embedded
