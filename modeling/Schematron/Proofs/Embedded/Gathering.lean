import Schematron.Proofs.Embedded.Annotations
import Schematron.Proofs.Report.Entries

/-!
# What is gathered from a grammar

The elements of all annotations go to the schema of a grammar, sorted by their names and otherwise
in document order. None is lost, none comes twice and none changes its place among those of its
kind (`schema?_gathers`); only a first title counts, rules and bare assertions get a pattern around
them, and the groups of diagnostics become one. Nothing is gathered exactly if some bare assertion
has no declaration around it.
-/
namespace Schematron.Embedded
open Xml Sequencing

def isMarkup (e : Element) : Bool := e.name.namespaceUri == some schematronUri

def named (l : String) (es : List Element) : List Element := es.filter (·.is schematronUri l)

theorem is_eq {e : Element} (h : isMarkup e = true) (l : String) :
    e.is schematronUri l = (e.name.localName == l) := by
  rw [isMarkup] at h
  rw [Element.is, QName.is, h, Bool.true_and]

theorem named_of_forall {l l' : String} {es : List Element}
    (h : ∀ e ∈ es, e.is schematronUri l' = true) : named l es = if l = l' then es else [] := by
  by_cases hl : l = l'
  · subst hl
    rw [if_pos rfl]
    exact List.filter_eq_self.2 h
  · rw [if_neg hl]
    apply List.filter_eq_nil_iff.2
    intro e he
    have hother : e.is schematronUri l = false := QName.is_of_ne (h e he) hl
    simp [hother]

theorem named_named (l l' : String) (es : List Element) :
    named l (named l' es) = if l = l' then named l' es else [] :=
  named_of_forall fun _ he => (List.mem_filter.1 he).2

theorem named_append (l : String) (es es' : List Element) :
    named l (es ++ es') = named l es ++ named l es' := List.filter_append ..

def holding (e : Element) (es : List Element) : Element :=
  { e with children := es.map Element.toNode }

def isPatternOrInclude (e : Element) : Bool :=
  e.is schematronUri "pattern" || e.is schematronUri "include"

/-- What an element of an annotation is among the patterns, if anything: a rule gets a pattern of
its own. -/
def pattern? (e : Element) : Option Element :=
  if isPatternOrInclude e then some e
  else if e.is schematronUri "rule" then some (holding (sch "pattern") [e])
  else none

/-- The patterns of an annotation in order: those of its elements, and then, if it has bare
assertions, one with a rule that has them all. -/
def Site.patterns (t : Target) (s : Site) : List Element :=
  s.note.elements.filterMap pattern? ++
    if s.bare.isEmpty then []
    else [holding (sch "pattern")
      [holding ((sch "rule").withAttr "context" (t.contextOf s.ancestors)) s.bare]]

theorem bareRule_eq (context : String) (assertions : List Element) :
    Parts.bareRule context assertions = holding (sch "pattern")
      [holding ((sch "rule").withAttr "context" (some context)) assertions] := by
  rw [Parts.bareRule, Report.pushAll_eq]
  rfl

theorem isPatternOrInclude_of_mem {t : Target} {s : Site} {e : Element} (he : e ∈ s.patterns t) :
    isPatternOrInclude e = true := by
  rcases List.mem_append.1 he with he | he
  · obtain ⟨x, _, hx⟩ := List.mem_filterMap.1 he
    unfold pattern? at hx
    split at hx
    · cases hx
      assumption
    · split at hx
      · cases hx
        rfl
      · cases hx
  · split at he
    · cases he
    · rw [List.mem_singleton.1 he]
      rfl

namespace Parts

def plus (p : Parts) (es patterns : List Element) : Parts where
  title := p.title.or (named "title" es).head?
  namespaces := p.namespaces ++ named "ns" es
  paragraphs := p.paragraphs ++ named "p" es
  lets := p.lets ++ named "let" es
  phases := p.phases ++ named "phase" es
  patterns := p.patterns ++ patterns
  diagnostics := p.diagnostics ++ named "diagnostics" es

theorem plus_nil (p : Parts) : p.plus [] [] = p := by
  simp [plus, named]

theorem plus_plus (p : Parts) (es ps es' ps' : List Element) :
    (p.plus es ps).plus es' ps' = p.plus (es ++ es') (ps ++ ps') := by
  simp [plus, named, List.head?_append, Option.or_assoc]

/-- An element is added to the parts of its name, and to the patterns if it is one or becomes one. -/
theorem add_eq (p : Parts) (e : Element) : p.add e = p.plus [e] (pattern? e).toList := by
  cases h : isMarkup e with
  | false =>
    have huri : (e.name.namespaceUri != some schematronUri) = true := by
      rw [bne, ← isMarkup, h]
      rfl
    have hno (l : String) : e.is schematronUri l = false := by
      rw [Element.is, QName.is, ← isMarkup, h, Bool.false_and]
    simp [add, huri, plus, named, pattern?, isPatternOrInclude, hno]
  | true =>
    have huri : (e.name.namespaceUri != some schematronUri) = false := by
      rw [bne, ← isMarkup, h]
      rfl
    unfold add
    rw [if_neg (by simp [huri])]
    split <;> simp_all [plus, named, pattern?, isPatternOrInclude, is_eq, holding, Element.push,
      sch, Element.ofName]

theorem foldl_add (p : Parts) (es : List Element) :
    es.foldl add p = p.plus es (es.filterMap pattern?) := by
  induction es generalizing p with
  | nil => exact (plus_nil p).symm
  | cons e es ih =>
    rw [List.foldl_cons, add_eq, ih, plus_plus, List.singleton_append]
    cases h : pattern? e <;> simp [h]

end Parts

def noContext : TransformError :=
  .missingContext "sch:assert or sch:report outside any xs:element declaration"

/-- Whether the bare assertions of an annotation, if it has any, have a declaration around them. -/
def Site.HasContext (s : Site) : Prop := s.bare ≠ [] → ∃ tag ∈ s.ancestors, declares tag = true

/-- There is a context exactly where a declaration is around. -/
theorem contextOf_isSome (t : Target) {tags : List Tag} :
    (t.contextOf tags).isSome = true ↔ ∃ tag ∈ tags, declares tag = true := by
  have hany : (t.contextOf tags).isSome = tags.any declares := by
    induction tags with
    | nil => rfl
    | cons tag outer ih =>
      rw [contextOf_cons, List.any_cons, declares, ← context?_isSome t tag (isGlobal outer), ← ih]
      cases tag.name.is xmlSchemaUri "element" <;> simp
  rw [hany, List.any_eq_true]

/-- An annotation whose bare assertions have a context is added. -/
theorem addSite_of_hasContext {t : Target} {s : Site} (h : s.HasContext) (p : Parts) :
    t.addSite p s = .ok (p.plus s.note.elements (s.patterns t)) := by
  unfold Target.addSite Parts.addAnnotation
  rw [Parts.foldl_add]
  cases hbare : s.note.elements.filter Parts.isBare with
  | nil =>
    have hnone : s.bare = [] := hbare
    simp [Site.patterns, hnone]
  | cons a as =>
    have hsome : s.bare = a :: as := hbare
    obtain ⟨c, hc⟩ := Option.isSome_iff_exists.1 ((contextOf_isSome t).2 (h (by simp [hsome])))
    simp [Site.patterns, hsome, hc, bareRule_eq, Parts.plus]

/-- Any other annotation is an error. -/
theorem addSite_of_not_hasContext {t : Target} {s : Site} (h : ¬ s.HasContext) (p : Parts) :
    t.addSite p s = .error noContext := by
  rw [Site.HasContext, Classical.not_imp, ← contextOf_isSome t, Option.not_isSome_iff_eq_none] at h
  obtain ⟨hbare, hc⟩ := h
  unfold Target.addSite Parts.addAnnotation
  rw [hc]
  cases hfilter : s.note.elements.filter Parts.isBare with
  | nil => exact absurd hfilter hbare
  | cons a as => rfl

theorem foldlM_addSite_eq_ok {t : Target} {ss : List Site} (h : ∀ s ∈ ss, s.HasContext)
    (p : Parts) : ss.foldlM t.addSite p =
      .ok (p.plus (ss.flatMap (·.note.elements)) (ss.flatMap (Site.patterns t))) := by
  induction ss generalizing p with
  | nil => exact congrArg Except.ok p.plus_nil.symm
  | cons s ss ih =>
    rw [List.foldlM_cons, addSite_of_hasContext (h s List.mem_cons_self), ok_bind,
      ih fun s' hs => h s' (List.mem_cons_of_mem s hs), Parts.plus_plus, List.flatMap_cons,
      List.flatMap_cons]

theorem foldlM_addSite_eq_error {t : Target} {ss : List Site} (h : ∃ s ∈ ss, ¬ s.HasContext)
    (p : Parts) : ss.foldlM t.addSite p = .error noContext := by
  induction ss generalizing p with
  | nil => simp at h
  | cons s ss ih =>
    rw [List.foldlM_cons]
    by_cases hs : s.HasContext
    · have hrest : ∃ s' ∈ ss, ¬ s'.HasContext := by
        simpa [hs] using h
      rw [addSite_of_hasContext hs, ok_bind, ih hrest]
    · rw [addSite_of_not_hasContext hs, error_bind]

/-- Of a prefix that is not bound before, the first binding is added. -/
theorem filter_freshBindings (bound : List String) (bs : List (String × String)) (p : String) :
    (freshBindings bound bs).filter (·.1 == p) =
      if p ∈ bound then [] else (bs.find? (·.1 == p)).toList := by
  -- a binding that is taken hides the later ones of its prefix, as `find?` does
  induction bs generalizing bound with
  | nil => simp [freshBindings]
  | cons b bs ih =>
    obtain ⟨q, v⟩ := b
    by_cases hq : q ∈ bound
    · by_cases hp : q = p
      · subst hp
        simp [freshBindings, ih, hq]
      · simp [freshBindings, ih, hq, hp]
    · by_cases hp : q = p
      · subst hp
        simp [freshBindings, ih, hq]
      · simp [freshBindings, ih, hq, hp, Ne.symm hp]

/-- The added bindings are, of those that the grammar makes, the first one of each prefix that is
not bound before. -/
theorem mem_freshBindings {bound : List String} {bs : List (String × String)} {p uri : String} :
    (p, uri) ∈ freshBindings bound bs ↔
      p ∉ bound ∧ bs.find? (·.1 == p) = some (p, uri) := by
  have hfilter : (p, uri) ∈ freshBindings bound bs ↔
      (p, uri) ∈ (freshBindings bound bs).filter (·.1 == p) := by simp
  rw [hfilter, filter_freshBindings]
  split
  · rename_i hp
    simp [hp]
  · rename_i hp
    simp [hp]

theorem nodup_freshBindings (bound : List String) (bs : List (String × String)) :
    ((freshBindings bound bs).map (·.1)).Nodup ∧ ∀ b ∈ freshBindings bound bs, b.1 ∉ bound := by
  induction bs generalizing bound with
  | nil => simp [freshBindings]
  | cons b bs ih =>
    obtain ⟨p, uri⟩ := b
    by_cases hp : p ∈ bound
    · simpa [freshBindings, hp] using ih bound
    · obtain ⟨hnodup, hnew⟩ := ih (p :: bound)
      simp only [freshBindings, List.contains_iff_mem, hp, if_false, List.map_cons, List.nodup_cons]
      refine ⟨⟨?_, hnodup⟩, ?_⟩
      · intro hmem
        obtain ⟨b, hb, rfl⟩ := List.mem_map.1 hmem
        exact hnew b hb List.mem_cons_self
      · intro b hb
        rcases List.mem_cons.1 hb with rfl | hb
        · exact hp
        · exact fun hbound => hnew b hb (List.mem_cons_of_mem p hbound)

section
variable {es ps : List Element} {root : Element} {t : Target}

/-- The bindings that a schema of the given elements gets besides its own. -/
def addedTo (es : List Element) (root : Element) (t : Target) : List (String × String) :=
  freshBindings ((named "ns" es).filterMap (·.attr "prefix")) (implicitBindings root t)

theorem children_schema (p : Parts) (root : Element) (t : Target) :
    (p.schema root t).children = (p.schema root t).elements.map Element.toNode := by
  rw [Parts.schema, Report.elements_foldl_push, Report.pushAll_eq]
  rfl

theorem elements_plus (es ps : List Element) (root : Element) (t : Target) :
    ((({} : Parts).plus es ps).schema root t).elements =
      (named "title" es).head?.toList ++ named "ns" es ++
        (addedTo es root t).map namespaceElement ++ named "p" es ++ named "let" es ++
        named "phase" es ++ ps ++ mergedDiagnostics (named "diagnostics" es) := by
  rw [Parts.schema, Report.elements_foldl_push]
  rfl

theorem is_title {e : Element} (he : e ∈ (named "title" es).head?.toList) :
    e.is schematronUri "title" = true :=
  (List.mem_filter.1 (List.mem_of_mem_head? (Option.mem_toList.1 he))).2

theorem is_namespaceElement {bs : List (String × String)} {e : Element}
    (he : e ∈ bs.map namespaceElement) : e.is schematronUri "ns" = true := by
  obtain ⟨b, _, rfl⟩ := List.mem_map.1 he
  rfl

theorem is_mergedDiagnostics {groups : List Element} {e : Element}
    (he : e ∈ mergedDiagnostics groups) : e.is schematronUri "diagnostics" = true := by
  cases groups with
  | nil => cases he
  | cons g gs =>
    rw [List.mem_singleton.1 he]
    rfl

theorem named_patterns (hps : ∀ e ∈ ps, isPatternOrInclude e = true) {l : String}
    (hpattern : l ≠ "pattern") (hinclude : l ≠ "include") : named l ps = [] := by
  apply List.filter_eq_nil_iff.2
  intro e he
  have hother : e.is schematronUri l = false := by
    rcases Bool.or_eq_true_iff.1 (hps e he) with h | h
    · exact QName.is_of_ne h hpattern
    · exact QName.is_of_ne h hinclude
  simp [hother]

/-- What the schema has under each name, apart from its patterns. -/
theorem childrenNamed_plus (hps : ∀ e ∈ ps, isPatternOrInclude e = true) (l : String) :
    ((({} : Parts).plus es ps).schema root t).childrenNamed schematronUri l =
      if l = "title" then (named "title" es).head?.toList
      else if l = "ns" then named "ns" es ++ (addedTo es root t).map namespaceElement
      else if l = "diagnostics" then mergedDiagnostics (named "diagnostics" es)
      else if l ∈ ["p", "let", "phase"] then named l es else named l ps := by
  rw [Element.childrenNamed, elements_plus]
  change named l _ = _
  simp only [named_append, named_named, named_of_forall fun _ => is_title,
    named_of_forall fun _ => is_namespaceElement, named_of_forall fun _ => is_mergedDiagnostics]
  by_cases hl : l ∈ ["title", "ns", "diagnostics", "p", "let", "phase"]
  · simp only [List.mem_cons, List.not_mem_nil, or_false] at hl
    rcases hl with rfl | rfl | rfl | rfl | rfl | rfl <;> simp [named_patterns hps]
  · simp only [List.mem_cons, List.not_mem_nil, or_false, not_or] at hl
    simp [hl]

theorem filter_isPatternOrInclude {es : List Element} {l : String} (hpattern : l ≠ "pattern")
    (hinclude : l ≠ "include") (h : ∀ e ∈ es, e.is schematronUri l = true) :
    es.filter isPatternOrInclude = [] := by
  apply List.filter_eq_nil_iff.2
  intro e he
  have hno {l' : String} (hl : l' ≠ l) : e.is schematronUri l' = false := QName.is_of_ne (h e he) hl
  simp [isPatternOrInclude, hno hpattern.symm, hno hinclude.symm]

theorem patterns_plus (hps : ∀ e ∈ ps, isPatternOrInclude e = true) :
    ((({} : Parts).plus es ps).schema root t).elements.filter isPatternOrInclude = ps := by
  have hnamed {l : String} (hpattern : l ≠ "pattern") (hinclude : l ≠ "include") :
      (named l es).filter isPatternOrInclude = [] :=
    filter_isPatternOrInclude hpattern hinclude fun _ he => (List.mem_filter.1 he).2
  have htitle : (named "title" es).head?.toList.filter isPatternOrInclude = [] :=
    filter_isPatternOrInclude (by decide) (by decide) fun _ => is_title
  have hadded : ((addedTo es root t).map namespaceElement).filter isPatternOrInclude = [] :=
    filter_isPatternOrInclude (by decide) (by decide) fun _ => is_namespaceElement
  have hmerged : (mergedDiagnostics (named "diagnostics" es)).filter isPatternOrInclude = [] :=
    filter_isPatternOrInclude (by decide) (by decide) fun _ => is_mergedDiagnostics
  have hall : ps.filter isPatternOrInclude = ps := List.filter_eq_self.2 hps
  simp [elements_plus, List.filter_append, htitle, hadded, hmerged, hall, hnamed]

end

def noteElements (root : Element) : List Element := (grammarSites root).flatMap (·.note.elements)

def notePatterns (root : Element) : List Element :=
  (grammarSites root).flatMap (Site.patterns (.ofSchema root))

def gathered (root : Element) : Element :=
  (({} : Parts).plus (noteElements root) (notePatterns root)).schema root (.ofSchema root)

theorem isPatternOrInclude_of_mem_notePatterns {root : Element} :
    ∀ e ∈ notePatterns root, isPatternOrInclude e = true := by
  intro e he
  obtain ⟨s, _, hs⟩ := List.mem_flatMap.1 he
  exact isPatternOrInclude_of_mem hs

theorem explicitBindings_eq_noteElements (root : Element) :
    explicitBindings root = named "ns" (noteElements root) := by
  rw [explicitBindings, noteElements, named, List.filter_flatMap]
  rfl

theorem schema?_of_hasContext {root : Element} (hroot : root.is xmlSchemaUri "schema" = true)
    (h : ∀ s ∈ grammarSites root, s.HasContext) : schema? root = .ok (gathered root) := by
  rw [schema?_eq hroot, foldlM_addSite_eq_ok h]
  rfl

theorem schema?_of_not_hasContext {root : Element} (hroot : root.is xmlSchemaUri "schema" = true)
    (h : ∃ s ∈ grammarSites root, ¬ s.HasContext) : schema? root = .error noContext := by
  rw [schema?_eq hroot, foldlM_addSite_eq_error h]
  rfl

/-- A grammar with a schema has a context for every bare assertion, and its schema has the elements
of all annotations. -/
theorem schema?_eq_ok {root out : Element} (h : schema? root = .ok out) :
    (∀ s ∈ grammarSites root, s.HasContext) ∧ out = gathered root := by
  cases hroot : root.is xmlSchemaUri "schema" with
  | false => simp [schema?, hroot] at h
  | true =>
    by_cases hall : ∀ s ∈ grammarSites root, s.HasContext
    · rw [schema?_of_hasContext hroot hall] at h
      cases h
      exact ⟨hall, rfl⟩
    · have hnot : ∃ s ∈ grammarSites root, ¬ s.HasContext := by
        simpa using hall
      rw [schema?_of_not_hasContext hroot hnot] at h
      cases h

/-- The schema of a grammar binds what the annotations write out and then the added bindings, and
the bare assertions of every annotation stand in a rule about the declaration around it. -/
theorem schema?_spec {root out : Element} (h : schema? root = .ok out) :
    out.childrenNamed schematronUri "ns" =
        explicitBindings root ++ (addedBindings root).map namespaceElement ∧
      ∀ s ∈ grammarSites root, s.bare ≠ [] → ∃ c,
        (Target.ofSchema root).contextOf s.ancestors = some c ∧
          Parts.bareRule c s.bare ∈ out.elements := by
  obtain ⟨hcontexts, rfl⟩ := schema?_eq_ok h
  constructor
  · rw [gathered, childrenNamed_plus isPatternOrInclude_of_mem_notePatterns, addedBindings,
      explicitBindings_eq_noteElements]
    rfl
  · intro s hs hbare
    obtain ⟨c, hc⟩ := Option.isSome_iff_exists.1
      ((contextOf_isSome (Target.ofSchema root)).2 (hcontexts s hs hbare))
    have hmem : Parts.bareRule c s.bare ∈ notePatterns root := by
      refine List.mem_flatMap.2 ⟨s, hs, ?_⟩
      rw [bareRule_eq, Site.patterns, hc]
      simp [hbare]
    rw [← patterns_plus isPatternOrInclude_of_mem_notePatterns] at hmem
    exact ⟨c, hc, List.mem_of_mem_filter hmem⟩

/-- The prefixes that a grammar binds apart from its annotations: those that its root declares, and
the one that is chosen for its target namespace. -/
def rootPrefixes (root : Element) : List String :=
  root.tag.namespaces.filterMap (·.namespacePrefix) ++
    ((Target.ofSchema root).binding.map (·.2)).toList

/-- Bindings that come to those of the annotations: one for each prefix that the grammar binds and
no annotation does, to what the grammar binds it first. -/
structure Completes (root : Element) (added : List (String × String)) : Prop where
  nodup : (added.map (·.1)).Nodup
  prefixes : ∀ p, p ∈ added.map (·.1) ↔
    p ∈ rootPrefixes root ∧ ∀ e ∈ named "ns" (noteElements root), e.attr "prefix" ≠ some p
  uris : ∀ b ∈ added,
    (implicitBindings root (.ofSchema root)).find? (·.1 == b.1) = some b

/-- A schema has what the annotations of a grammar hold. -/
structure Gathers (root out : Element) : Prop where
  isSchema : out.is schematronUri "schema" = true
  /-- Patterns and inclusions, wrapped rules and bare assertions, annotation by annotation. -/
  patterns : out.elements.filter isPatternOrInclude = notePatterns root
  kept : ∀ l ∈ ["p", "let", "phase"],
    out.childrenNamed schematronUri l = named l (noteElements root)
  title : out.childrenNamed schematronUri "title" = (named "title" (noteElements root)).take 1
  /-- The children of all groups in one group, if there are groups. -/
  diagnostics : out.childrenNamed schematronUri "diagnostics" =
    if (named "diagnostics" (noteElements root)).isEmpty then []
    else [{ sch "diagnostics" with
      children := (named "diagnostics" (noteElements root)).flatMap (·.children) }]
  bindings : ∃ added, Completes root added ∧ out.childrenNamed schematronUri "ns" =
    named "ns" (noteElements root) ++ added.map namespaceElement
  /-- There is nothing else, and the kinds stand in this order. -/
  children : out.children = (out.childrenNamed schematronUri "title" ++
    out.childrenNamed schematronUri "ns" ++ out.childrenNamed schematronUri "p" ++
    out.childrenNamed schematronUri "let" ++ out.childrenNamed schematronUri "phase" ++
    out.elements.filter isPatternOrInclude ++
    out.childrenNamed schematronUri "diagnostics").map Element.toNode

theorem map_fst_implicitBindings (root : Element) :
    (implicitBindings root (.ofSchema root)).map (·.1) = rootPrefixes root := by
  have hdeclared : (root.tag.namespaces.filterMap fun n =>
      n.namespacePrefix.map fun p => (p, n.uri)).map (·.1) =
        root.tag.namespaces.filterMap (·.namespacePrefix) := by
    rw [List.map_filterMap]
    congr 1
    funext n
    cases n.namespacePrefix <;> rfl
  rw [implicitBindings, rootPrefixes, List.map_append, hdeclared]
  cases (Target.ofSchema root).binding <;> rfl

theorem completes_addedTo (root : Element) :
    Completes root (addedTo (noteElements root) root (.ofSchema root)) where
  nodup := (nodup_freshBindings _ _).1
  prefixes := by
    intro p
    have hbound : p ∉ (named "ns" (noteElements root)).filterMap (·.attr "prefix") ↔
        ∀ e ∈ named "ns" (noteElements root), e.attr "prefix" ≠ some p := by
      simp [List.mem_filterMap]
    have hmem : p ∈ rootPrefixes root ↔ ∃ uri,
        (implicitBindings root (.ofSchema root)).find? (·.1 == p) = some (p, uri) := by
      rw [← map_fst_implicitBindings]
      constructor
      · intro hp
        obtain ⟨b, hb, hbp⟩ := List.mem_map.1 hp
        have hsome : ((implicitBindings root (.ofSchema root)).find? (·.1 == p)).isSome = true :=
          List.find?_isSome.2 ⟨b, hb, by simp [hbp]⟩
        obtain ⟨⟨q, uri⟩, hfind⟩ := Option.isSome_iff_exists.1 hsome
        have hq : q = p := by
          simpa using List.find?_some hfind
        exact ⟨uri, hq ▸ hfind⟩
      · rintro ⟨uri, hfind⟩
        exact List.mem_map.2 ⟨_, List.mem_of_find?_eq_some hfind, rfl⟩
    rw [← hbound, hmem, addedTo, List.mem_map]
    constructor
    · rintro ⟨⟨p, uri⟩, hb, rfl⟩
      obtain ⟨hnew, hfind⟩ := mem_freshBindings.1 hb
      exact ⟨⟨uri, hfind⟩, hnew⟩
    · rintro ⟨⟨uri, hfind⟩, hnew⟩
      exact ⟨(p, uri), mem_freshBindings.2 ⟨hnew, hfind⟩, rfl⟩
  uris := fun b hb => (mem_freshBindings.1 hb).2

theorem gathers_gathered (root : Element) : Gathers root (gathered root) := by
  have hpatterns : (gathered root).elements.filter isPatternOrInclude = notePatterns root :=
    patterns_plus isPatternOrInclude_of_mem_notePatterns
  have hchildren (l : String) : (gathered root).childrenNamed schematronUri l = _ :=
    childrenNamed_plus isPatternOrInclude_of_mem_notePatterns l
  refine ⟨?isSchema, hpatterns, ?kept, ?title, ?diagnostics, ?bindings, ?children⟩
  case isSchema =>
    rw [gathered, Parts.schema, Report.is_pushAll]
    rfl
  case kept =>
    intro l hl
    have hother : l ≠ "title" ∧ l ≠ "ns" ∧ l ≠ "diagnostics" := by
      simp only [List.mem_cons, List.not_mem_nil, or_false] at hl
      rcases hl with rfl | rfl | rfl <;> decide
    rw [hchildren]
    simp only [hother, hl, if_true, if_false]
  case title =>
    rw [hchildren, if_pos rfl]
    cases named "title" (noteElements root) <;> rfl
  case diagnostics =>
    rw [hchildren]
    cases named "diagnostics" (noteElements root) <;> rfl
  case bindings => exact ⟨_, completes_addedTo root, hchildren "ns"⟩
  case children =>
    rw [hpatterns, gathered, children_schema, elements_plus, ← gathered]
    simp [hchildren]

theorem not_hasContext_iff {s : Site} :
    ¬ s.HasContext ↔ s.bare ≠ [] ∧ ∀ tag ∈ s.ancestors, declares tag = false := by
  simp [Site.HasContext]

/-- The schema of a grammar has what the annotations hold, with nothing lost, repeated or moved. The
only error is that an assertion has no declaration around it, and that always is one. -/
theorem schema?_gathers {root : Element} (hroot : root.is xmlSchemaUri "schema" = true) :
    (∀ out, schema? root = .ok out → Gathers root out) ∧
      ∀ e, schema? root = .error e ↔ e = noContext ∧
        ∃ s ∈ grammarSites root, s.bare ≠ [] ∧ ∀ tag ∈ s.ancestors, declares tag = false := by
  constructor
  · intro out h
    obtain ⟨_, rfl⟩ := schema?_eq_ok h
    exact gathers_gathered root
  · intro e
    simp only [← not_hasContext_iff]
    by_cases hall : ∀ s ∈ grammarSites root, s.HasContext
    · rw [schema?_of_hasContext hroot hall]
      simpa using fun _ => hall
    · have hnot : ∃ s ∈ grammarSites root, ¬ s.HasContext := by
        simpa using hall
      rw [schema?_of_not_hasContext hroot hnot]
      simpa [hnot] using eq_comm

def totalAssertion : Node := schNode "assert" [("test", "total")] [.text "Orders have a total"]

/-- A grammar with assertions of an order and of its lines, and others in a given place. -/
def annotatedGrammar (outside : List Node) : Element where
  tag := orderRoot
  children := [
    annotation (schNode "title" [] [.text "Orders"] ::
      schNode "ns" [("prefix", "xs"), ("uri", "urn:types")] [] :: outside),
    xsNode "element" [("name", "order")] [
      annotation [totalAssertion, schNode "rule" [("context", "note")] [],
        schNode "diagnostics" [] [schNode "diagnostic" [("id", "why")] []],
        schNode "report" [("test", "paid")] []],
      xsNode "element" [("ref", "line")] [
        annotation [schNode "title" [] [.text "Lines"], schNode "let" [("name", "n")] [],
          schNode "report" [("test", "void")] [],
          schNode "diagnostics" [] [schNode "diagnostic" [("id", "how")] []]]],
      annotation [schNode "include" [("href", "more.sch")] []]]]

/-- What is gathered from the places of a grammar; a further assertion above all declarations has
no context. -/
theorem schema?_gathers_annotated :
    (∃ out, schema? (annotatedGrammar []) = .ok out ∧ Gathers (annotatedGrammar []) out) ∧
      schema? (annotatedGrammar [totalAssertion]) = .error noContext := by
  constructor
  · obtain ⟨out, h⟩ : ∃ out, schema? (annotatedGrammar []) = .ok out :=
      exists_of_isSome (by decide +kernel)
    exact ⟨out, h, (schema?_gathers (by decide)).1 out h⟩
  · apply ((schema?_gathers (by decide)).2 noContext).2
    refine ⟨rfl, ?_⟩
    decide +kernel

end Schematron.Embedded
