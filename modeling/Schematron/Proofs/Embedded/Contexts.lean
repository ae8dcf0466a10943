import Schematron.Proofs.Compilation.Validators
import Schematron.Proofs.Embedded.FreePrefix
import Schematron.Proofs.Embedded.Gathering
import Schematron.XPath.Value

/-!
# What generated contexts denote

A bare assertion is about the element that the declaration around it declares, so the context of
its rule must denote the name of that element under the namespace bindings of the result. It does
(`context_denotes_declared`) unless an annotation binds the prefix of the context to something else,
or a reference is written with declarations that the result does not have. The prefix for the target
namespace is searched for among those that the root does not declare, and there always is one
(`search_ends_free`); the annotations are not asked.
-/
namespace Schematron.Embedded
open Xml Sequencing

structure ExpandedName where
  namespaceUri : Option String
  localName : String
  deriving DecidableEq, Repr

/-- The prefix, if any, and the local part of a written name, which has at most one colon. -/
def readName? (text : String) : Option (Option String × String) :=
  match text.toList.splitOn ':' with
  | [l] => some (none, .ofList l)
  | [p, l] => some (some (.ofList p), .ofList l)
  | _ => none

/-- The name that a text denotes, given the namespace of names without a prefix. -/
def nameIn? (unprefixed : Option String) (namespaceOf : String → Option String) (text : String) :
    Option ExpandedName :=
  match readName? text with
  | some (none, l) => some ⟨unprefixed, l⟩
  | some (some p, l) => (namespaceOf p).map fun uri => ⟨some uri, l⟩
  | none => none

theorem readName?_of_notMem {text : String} (h : ':' ∉ text.toList) :
    readName? text = some (none, text) := by
  rw [readName?, List.splitOn_eq_singleton h]
  simp

theorem readName?_qualified {p l : String} (hp : ':' ∉ p.toList) (hl : ':' ∉ l.toList) :
    readName? (p ++ ":" ++ l) = some (some p, l) := by
  have htext : (p ++ ":" ++ l).toList = p.toList ++ ':' :: l.toList := by simp
  rw [readName?, htext, List.splitOn_append_cons_self_of_not_mem hp, List.splitOn_eq_singleton hl]
  simp

/-- The name that a name test denotes; without a prefix it is in no namespace. -/
def denoted? (env : XPath.Environment) (test : String) : Option ExpandedName :=
  nameIn? none env.namespaceOf test

/-- The namespace that is declared for a prefix, or for names without one; inner declarations come
first. -/
def declaredUri? (scope : List Namespace) (pre : Option String) : Option String :=
  (scope.find? (·.namespacePrefix == pre)).map (·.uri)

def defaultUri? (scope : List Namespace) : Option String :=
  (declaredUri? scope none).filter (! ·.isEmpty)

def scopeOf (d : Tag) (outer : List Tag) : List Namespace := (d :: outer).flatMap (·.namespaces)

def targetUri? (root : Element) : Option String :=
  (root.attr "targetNamespace").filter (! ·.isEmpty)

/-- Whether a declared element is in the target namespace: it is global, or its form says so, or
without a form of its own the form of all local elements. -/
def isQualified (root : Element) (d : Tag) (outer : List Tag) : Bool :=
  isGlobal outer || (d.attr "form").or (root.attr "elementFormDefault") == some "qualified"

def declaredName? (root : Element) (d : Tag) (outer : List Tag) : Option ExpandedName :=
  match d.attr "ref" with
  | some q =>
    nameIn? (defaultUri? (scopeOf d outer)) (fun p => declaredUri? (scopeOf d outer) (some p)) q
  | none => (d.attr "name").map fun name =>
    ⟨if isQualified root d outer then targetUri? root else none, name⟩

def binding? (e : Element) : Option (String × String) :=
  (e.attr "prefix").bind fun p => (e.attr "uri").map fun uri => (p, uri)

theorem binding?_eq_some {e : Element} {p uri : String} :
    binding? e = some (p, uri) ↔ e.attr "prefix" = some p ∧ e.attr "uri" = some uri := by
  cases hp : e.attr "prefix" <;> cases hu : e.attr "uri" <;> simp [binding?, hp, hu]

/-- The namespace bindings of a schema; a later binding of a prefix replaces an earlier one. -/
def environmentOf (schema : Element) : XPath.Environment :=
  ((schema.childrenNamed schematronUri "ns").filterMap binding?).foldl
    (fun env b => env.bindNamespace b.1 b.2) .empty

theorem filterMap_binding?_of_mapM {es : List Element} {bs : List (String × String)}
    (h : es.mapM Compilation.namespaceBinding = (.ok bs : Except TransformError _)) :
    es.filterMap binding? = bs := by
  induction es generalizing bs with
  | nil =>
    cases h
    rfl
  | cons e es ih =>
    rw [List.mapM_cons] at h
    obtain ⟨b, hb, h⟩ := bind_eq_ok.1 h
    obtain ⟨bs', hbs, h⟩ := bind_eq_ok.1 h
    cases h
    have hbinding : binding? e = some b := by
      unfold Compilation.namespaceBinding at hb
      split at hb
      · rename_i p uri hp huri
        cases hb
        exact binding?_eq_some.2 ⟨hp, huri⟩
      · cases hb
    rw [List.filterMap_cons_some hbinding, ih hbs]

/-- A validator has the bindings of the schema that it is compiled from. -/
theorem environmentOf_eq_of_schema {check : String → Except TransformError Unit}
    {asked : Option String} {e : Element} {v : Validator}
    (h : Compilation.schema check asked e = .ok v) :
    environmentOf e = v.namespaces.foldl (fun env b => env.bindNamespace b.1 b.2) .empty := by
  obtain ⟨_, _, hcompiled⟩ := Compilation.schema_eq_ok_iff.1 h
  rw [environmentOf, filterMap_binding?_of_mapM hcompiled.namespaces]

theorem namespaceOf_foldl {bs : List (String × String)} {env : XPath.Environment} {p uri : String}
    (hall : ∀ b ∈ bs, b.1 = p → b.2 = uri)
    (hsome : env.namespaceOf p = some uri ∨ ∃ b ∈ bs, b.1 = p) :
    (bs.foldl (fun env b => env.bindNamespace b.1 b.2) env).namespaceOf p = some uri := by
  induction bs generalizing env with
  | nil => simpa using hsome
  | cons b bs ih =>
    rw [List.foldl_cons]
    refine ih (fun c hc => hall c (List.mem_cons_of_mem b hc)) ?_
    by_cases hb : b.1 = p
    · left
      have huri := hall b List.mem_cons_self hb
      simp [XPath.Environment.bindNamespace, hb, huri]
    · rcases hsome with henv | ⟨c, hc, hcp⟩
      · left
        simpa [XPath.Environment.bindNamespace, Ne.symm hb] using henv
      · right
        rcases List.mem_cons.1 hc with rfl | hc
        · exact absurd hcp hb
        · exact ⟨c, hc, hcp⟩

/-- Whether the annotations of a grammar bind a prefix to nothing but the given namespace. -/
def Respects (root : Element) (pre uri : String) : Prop :=
  ∀ e ∈ explicitBindings root, e.attr "prefix" = some pre → e.attr "uri" = some uri

theorem namespaceOf_environmentOf {root out : Element} (h : schema? root = .ok out)
    {p uri : String}
    (hfirst : (implicitBindings root (Target.ofSchema root)).find? (·.1 == p) = some (p, uri))
    (hrespects : Respects root p uri) : (environmentOf out).namespaceOf p = some uri := by
  obtain ⟨hbindings, _⟩ := schema?_spec h
  have hadded : ((addedBindings root).map namespaceElement).filterMap binding? =
      addedBindings root := by
    rw [List.filterMap_map]
    exact List.filterMap_some
  rw [environmentOf, hbindings, List.filterMap_append, hadded]
  apply namespaceOf_foldl
  · rintro ⟨q, v⟩ hb rfl
    rcases List.mem_append.1 hb with hb | hb
    · obtain ⟨e, he, heb⟩ := List.mem_filterMap.1 hb
      obtain ⟨hpre, huri⟩ := binding?_eq_some.1 heb
      have hrespected := hrespects e he hpre
      rw [huri] at hrespected
      exact Option.some.inj hrespected
    · have hfound := (mem_freshBindings.1 hb).2
      rw [hfirst] at hfound
      exact (congrArg Prod.snd (Option.some.inj hfound)).symm
  · right
    refine ⟨(p, uri), ?_, rfl⟩
    -- the prefix is bound by an annotation, or else the grammar's own binding of it is added
    by_cases hbound : p ∈ (explicitBindings root).filterMap (·.attr "prefix")
    · obtain ⟨e, he, hpre⟩ := List.mem_filterMap.1 hbound
      have hbinding := binding?_eq_some.2 ⟨hpre, hrespects e he hpre⟩
      exact List.mem_append_left _ (List.mem_filterMap.2 ⟨e, he, hbinding⟩)
    · exact List.mem_append_right _ (mem_freshBindings.2 ⟨hbound, hfirst⟩)

/-- The declarations of a tag are well-formed: one for each prefix, and no colon in a prefix. -/
structure WellDeclared (ns : List Namespace) : Prop where
  nodup : (ns.map (·.namespacePrefix)).Nodup
  noColon : ∀ n ∈ ns, ∀ p, n.namespacePrefix = some p → ':' ∉ p.toList

theorem find?_prefixed {ns : List Namespace} {p uri : String}
    (h : declaredUri? ns (some p) = some uri) :
    (ns.filterMap fun n => n.namespacePrefix.map fun q => (q, n.uri)).find? (·.1 == p) =
      some (p, uri) := by
  induction ns with
  | nil => cases h
  | cons n ns ih =>
    obtain ⟨pre, v⟩ := n
    cases pre with
    | none => exact ih (by simpa [declaredUri?] using h)
    | some q =>
      by_cases hq : q = p
      · subst hq
        simpa [declaredUri?] using h
      · have hrest := ih (by simpa [declaredUri?, hq] using h)
        simpa [hq] using hrest

/-- The first declaration of a prefix is the first binding that the grammar makes of it. -/
theorem find?_implicitBindings_of_declared {root : Element} {t : Target} {p uri : String}
    (h : declaredUri? root.tag.namespaces (some p) = some uri) :
    (implicitBindings root t).find? (·.1 == p) = some (p, uri) := by
  rw [implicitBindings, List.find?_append, find?_prefixed h]
  rfl

theorem declaredUri?_of_mem {ns : List Namespace} (hnodup : (ns.map (·.namespacePrefix)).Nodup)
    {n : Namespace} (hn : n ∈ ns) : declaredUri? ns n.namespacePrefix = some n.uri := by
  induction ns with
  | nil => cases hn
  | cons m ns ih =>
    rw [List.map_cons, List.nodup_cons] at hnodup
    rcases List.mem_cons.1 hn with rfl | hn
    · simp [declaredUri?]
    · have hne : m.namespacePrefix ≠ n.namespacePrefix := by
        intro heq
        exact hnodup.1 (heq ▸ List.mem_map_of_mem hn)
      simpa [declaredUri?, hne] using ih hnodup.2 hn

theorem find?_prefixed_of_binds_eq_false {ns : List Namespace} {p : String}
    (h : binds ns p = false) :
    (ns.filterMap fun n => n.namespacePrefix.map fun q => (q, n.uri)).find? (·.1 == p) = none := by
  rw [List.find?_eq_none]
  intro b hb
  obtain ⟨n, hn, hnb⟩ := List.mem_filterMap.1 hb
  obtain ⟨q, hq, rfl⟩ := Option.map_eq_some_iff.1 hnb
  have hne := List.any_eq_false.1 h n hn
  rw [hq] at hne
  simpa using hne

/-- The prefix for the target namespace has no colon, and the first binding that the grammar makes
of it is to that namespace. -/
theorem find?_implicitBindings_of_target {root : Element}
    (hroot : WellDeclared root.tag.namespaces) {uri p : String}
    (h : (Target.ofSchema root).binding = some (uri, p)) :
    (implicitBindings root (Target.ofSchema root)).find? (·.1 == p) = some (p, uri) ∧
      ':' ∉ p.toList := by
  obtain ⟨uri', huri, hpair⟩ := Option.map_eq_some_iff.1 h
  obtain ⟨rfl, hp⟩ := Prod.mk.inj hpair
  cases hd : declaredPrefix? root.tag.namespaces uri' with
  | some q =>
    rw [hd] at hp
    obtain rfl : q = p := hp
    obtain ⟨n, hn, hq⟩ := Option.bind_eq_some_iff.1 hd
    have hmem := List.mem_of_find?_eq_some hn
    have hnuri : n.uri = uri' := by
      have hcond := List.find?_some hn
      rw [Bool.and_eq_true, beq_iff_eq] at hcond
      exact hcond.1
    have hdeclared := declaredUri?_of_mem hroot.nodup hmem
    rw [hq, hnuri] at hdeclared
    exact ⟨find?_implicitBindings_of_declared hdeclared, hroot.noColon n hmem q hq⟩
  | none =>
    rw [hd] at hp
    obtain rfl : unusedPrefix root.tag.namespaces = p := hp
    refine ⟨?_, colon_notMem_unusedPrefix _⟩
    have hnone := find?_prefixed_of_binds_eq_false (binds_unusedPrefix root.tag.namespaces)
    rw [implicitBindings, List.find?_append, hnone, h]
    simp

/-- For a target namespace without a prefix, a prefix is searched for. -/
theorem binding_of_declaredPrefix?_eq_none {root : Element} {uri : String}
    (huri : root.attr "targetNamespace" = some uri) (hne : uri ≠ "")
    (hnone : declaredPrefix? root.tag.namespaces uri = none) :
    (Target.ofSchema root).binding = some (uri, unusedPrefix root.tag.namespaces) := by
  simp [Target.ofSchema, huri, hne, hnone]

theorem filter_implicitBindings {root : Element} {p uri : String}
    (h : (Target.ofSchema root).binding = some (uri, p))
    (hp : binds root.tag.namespaces p = false) :
    (implicitBindings root (Target.ofSchema root)).filter (·.1 == p) = [(p, uri)] := by
  have hdeclared := List.find?_eq_none.1 (find?_prefixed_of_binds_eq_false hp)
  rw [implicitBindings, List.filter_append, List.filter_eq_nil_iff.2 hdeclared, h]
  simp

/-- A schema binds a prefix that no annotation binds as the grammar binds it first. -/
theorem filter_namespaces {root out : Element} (h : schema? root = .ok out) {p : String}
    (hp : ∀ e ∈ explicitBindings root, e.attr "prefix" ≠ some p) :
    (out.childrenNamed schematronUri "ns").filter (·.attr "prefix" == some p) =
      ((implicitBindings root (Target.ofSchema root)).find? (·.1 == p)).toList.map
        namespaceElement := by
  have hexplicit : (explicitBindings root).filter (·.attr "prefix" == some p) = [] := by
    rw [List.filter_eq_nil_iff]
    exact fun e he => by simpa using hp e he
  have hbound : p ∉ (explicitBindings root).filterMap (·.attr "prefix") := by
    rw [List.mem_filterMap]
    rintro ⟨e, he, hpre⟩
    exact hp e he hpre
  have hadded : (fun b : String × String => (namespaceElement b).attr "prefix" == some p) =
      fun b => b.1 == p := by
    funext b
    simp [namespaceElement, sch]
  rw [(schema?_spec h).1, List.filter_append, hexplicit, List.nil_append, List.filter_map,
    Function.comp_def, hadded, addedBindings, filter_freshBindings, if_neg hbound]

/-- The search for a prefix looks at one candidate more than there are declarations, at most, and
ends at one that no declaration of the root has. Where it stands for the target namespace, it is the
prefix of no other binding that the grammar makes by itself, and the schema binds it once. -/
theorem search_ends_free (root : Element) : ∃ looks pre,
    looks ≤ root.tag.namespaces.length + 1 ∧ Searches root.tag.namespaces 0 looks pre ∧
    (∀ looks' pre', Searches root.tag.namespaces 0 looks' pre' → looks' = looks ∧ pre' = pre) ∧
    unusedPrefix root.tag.namespaces = pre ∧
    (∀ n ∈ root.tag.namespaces, n.namespacePrefix ≠ some pre) ∧
    ∀ uri, root.attr "targetNamespace" = some uri → uri ≠ "" →
      declaredPrefix? root.tag.namespaces uri = none →
      (Target.ofSchema root).binding = some (uri, pre) ∧
      (implicitBindings root (Target.ofSchema root)).filter (·.1 == pre) = [(pre, uri)] ∧
      ∀ out, schema? root = .ok out →
        (∀ e ∈ explicitBindings root, e.attr "prefix" ≠ some pre) →
        (out.childrenNamed schematronUri "ns").filter (·.attr "prefix" == some pre) =
          [namespaceElement (pre, uri)] := by
  obtain ⟨looks, hlooks, hsearch⟩ := searches_unusedPrefix root.tag.namespaces
  refine ⟨looks, unusedPrefix root.tag.namespaces, hlooks, hsearch,
    fun looks' pre' h => hsearch.unique h, rfl, fun n hn hpre => ?_, fun uri huri hne hnone => ?_⟩
  · have hfree := List.any_eq_false.1 hsearch.free n hn
    simp [hpre] at hfree
  · have hbinding := binding_of_declaredPrefix?_eq_none huri hne hnone
    have hfilter := filter_implicitBindings hbinding hsearch.free
    refine ⟨hbinding, hfilter, fun out hout hexplicit => ?_⟩
    rw [filter_namespaces hout hexplicit, ← List.head?_filter, hfilter]
    rfl

def crowdedRoot : Element where
  tag :=
    { name := .inNamespace xmlSchemaUri "xs" "schema"
      namespaces := [⟨some "tns1", "urn:b"⟩, ⟨some "xs", xmlSchemaUri⟩, ⟨some "tns", "urn:a"⟩]
      attributes := [⟨.plain "targetNamespace", "urn:po"⟩] }

theorem search_ends_free_crowded :
    Searches crowdedRoot.tag.namespaces 0 3 "tns2" ∧ 3 ≤ crowdedRoot.tag.namespaces.length + 1 ∧
    ∃ out, schema? crowdedRoot = .ok out ∧
      (out.childrenNamed schematronUri "ns").filter (·.attr "prefix" == some "tns2") =
        [namespaceElement ("tns2", "urn:po")] := by
  obtain ⟨looks, pre, hlooks, _, hunique, _, _, hbinding⟩ := search_ends_free crowdedRoot
  have hthree : Searches crowdedRoot.tag.namespaces 0 3 "tns2" :=
    .next (by decide) (.next (by decide) (.found (by decide)))
  obtain ⟨rfl, rfl⟩ := hunique 3 "tns2" hthree
  have hnone : declaredPrefix? crowdedRoot.tag.namespaces "urn:po" = none := by decide
  obtain ⟨_, _, hschema⟩ := hbinding "urn:po" rfl (by decide) hnone
  exact ⟨hthree, hlooks, _, rfl, hschema _ rfl nofun⟩

/-- Whether a reference means at the root of a grammar, and with its annotations, what it means in a
scope. -/
def RefKeepsMeaning (root : Element) (scope : List Namespace) (q : String) : Prop :=
  match readName? q with
  | some (none, _) => defaultUri? scope = none
  | some (some p, _) => ∃ uri, declaredUri? scope (some p) = some uri ∧
      declaredUri? root.tag.namespaces (some p) = some uri ∧ Respects root p uri
  | none => False

/-- Whether a declaration of a name is well-formed, and the annotations do not bind the prefix for
the target namespace to something else. -/
structure NameKeepsMeaning (root : Element) (d : Tag) (outer : List Tag) : Prop where
  noColon : ∀ name, d.attr "name" = some name → ':' ∉ name.toList
  globalForm : isGlobal outer = true → d.attr "form" = none ∨ d.attr "form" = some "qualified"
  respects : isQualified root d outer = true →
    ∀ uri p, (Target.ofSchema root).binding = some (uri, p) → Respects root p uri

def KeepsMeaning (root : Element) (d : Tag) (outer : List Tag) : Prop :=
  match d.attr "ref" with
  | some q => RefKeepsMeaning root (scopeOf d outer) q
  | none => NameKeepsMeaning root d outer

theorem denoted?_ref {root out : Element} (h : schema? root = .ok out) {scope : List Namespace}
    {q : String} (hq : RefKeepsMeaning root scope q) :
    ∃ name, nameIn? (defaultUri? scope) (fun p => declaredUri? scope (some p)) q = some name ∧
      denoted? (environmentOf out) q = some name := by
  unfold RefKeepsMeaning at hq
  split at hq
  · rename_i l hread
    refine ⟨⟨none, l⟩, ?_, ?_⟩
    · simp [nameIn?, hread, hq]
    · simp [denoted?, nameIn?, hread]
  · rename_i p l hread
    obtain ⟨uri, hscope, hdeclared, hrespects⟩ := hq
    have hout := namespaceOf_environmentOf h (find?_implicitBindings_of_declared hdeclared)
      hrespects
    refine ⟨⟨some uri, l⟩, ?_, ?_⟩
    · simp [nameIn?, hread, hscope]
    · simp [denoted?, nameIn?, hread, hout]
  · exact hq.elim

theorem targetUri?_eq (root : Element) :
    targetUri? root = (Target.ofSchema root).binding.map (·.1) := by
  simp [targetUri?, Target.ofSchema, Function.comp_def]

def Target.qualifies (t : Target) (d : Tag) (inRoot : Bool) : Bool :=
  (d.attr "form").elim (inRoot || t.qualifiesLocals) (· == "qualified")

theorem context?_of_name {t : Target} {d : Tag} {inRoot : Bool} {name : String}
    (href : d.attr "ref" = none) (hname : d.attr "name" = some name) :
    t.context? d inRoot = some (if t.qualifies d inRoot then
      t.binding.elim name fun b => b.2 ++ ":" ++ name else name) := by
  have hqualifies : t.qualifies d inRoot =
      (d.attr "form").elim (inRoot || t.qualifiesLocals) (· == "qualified") := rfl
  cases hf : d.attr "form" with
  | none =>
    rw [hf, Option.elim_none] at hqualifies
    cases hb : t.binding <;> cases hq : inRoot || t.qualifiesLocals <;>
      simp [Target.context?, href, hname, hf, hb, hq, hqualifies]
  | some form =>
    rw [hf, Option.elim_some] at hqualifies
    cases hb : t.binding <;> cases hq : form == "qualified" <;>
      simp [Target.context?, href, hname, hf, hb, hq, hqualifies]

theorem qualifies_eq_isQualified {root : Element} {d : Tag} {outer : List Tag}
    (hform : isGlobal outer = true → d.attr "form" = none ∨ d.attr "form" = some "qualified") :
    (Target.ofSchema root).qualifies d (isGlobal outer) = isQualified root d outer := by
  cases hf : d.attr "form" with
  | none => simp [Target.qualifies, isQualified, hf, Target.ofSchema]
  | some form =>
    cases hg : isGlobal outer with
    | false => simp [Target.qualifies, isQualified, hf, hg]
    | true =>
      have hsome : form = "qualified" := by simpa [hf] using hform hg
      simp [Target.qualifies, isQualified, hf, hg, hsome]

theorem denoted?_name {root out : Element} (h : schema? root = .ok out)
    (hroot : WellDeclared root.tag.namespaces) {d : Tag} {outer : List Tag} {context : String}
    (hd : NameKeepsMeaning root d outer) (href : d.attr "ref" = none)
    (hcontext : (Target.ofSchema root).context? d (isGlobal outer) = some context) :
    ∃ name, declaredName? root d outer = some name ∧
      denoted? (environmentOf out) context = some name := by
  cases hname : d.attr "name" with
  | none => simp [Target.context?, href, hname] at hcontext
  | some name =>
    have hcolon := hd.noColon name hname
    have hplain : denoted? (environmentOf out) name = some ⟨none, name⟩ := by
      simp [denoted?, nameIn?, readName?_of_notMem hcolon]
    rw [context?_of_name href hname, qualifies_eq_isQualified hd.globalForm] at hcontext
    simp only [declaredName?, href, hname, Option.map_some, targetUri?_eq]
    refine ⟨_, rfl, ?_⟩
    cases hq : isQualified root d outer with
    | false =>
      have hsame : name = context := by simpa [hq] using hcontext
      rw [← hsame]
      exact hplain
    | true =>
      cases hb : (Target.ofSchema root).binding with
      | none =>
        have hsame : name = context := by simpa [hq, hb] using hcontext
        rw [← hsame]
        exact hplain
      | some binding =>
        obtain ⟨uri, p⟩ := binding
        have hsame : p ++ ":" ++ name = context := by simpa [hq, hb] using hcontext
        obtain ⟨hfirst, hp⟩ := find?_implicitBindings_of_target hroot hb
        have hout := namespaceOf_environmentOf h hfirst (hd.respects hq uri p hb)
        rw [← hsame]
        simp [denoted?, nameIn?, readName?_qualified hp hcolon, hout]

/-- The rule for the bare assertions of an annotation has the context of the innermost declaration
around it, and this context denotes the name that is declared there, if the grammar gives the prefix
in it one meaning only. -/
theorem context_denotes_declared {root out : Element} (h : schema? root = .ok out)
    (hroot : WellDeclared root.tag.namespaces) {s : Site} (hs : s ∈ grammarSites root)
    (hbare : s.bare ≠ []) :
    ∃ d outer context, declaration? s.ancestors = some (d, outer) ∧
      (Target.ofSchema root).context? d (isGlobal outer) = some context ∧
      Parts.bareRule context s.bare ∈ out.elements ∧
      (KeepsMeaning root d outer → ∃ name, declaredName? root d outer = some name ∧
        denoted? (environmentOf out) context = some name) := by
  obtain ⟨_, hrules⟩ := schema?_spec h
  obtain ⟨context, hcontext, hmem⟩ := hrules s hs hbare
  obtain ⟨⟨d, outer⟩, hd, hc⟩ := Option.bind_eq_some_iff.1 hcontext
  refine ⟨d, outer, context, hd, hc, hmem, ?_⟩
  intro hkeeps
  cases href : d.attr "ref" with
  | some q =>
    have hsame : context = q := by simpa [Target.context?, href, eq_comm] using hc
    subst hsame
    simp only [KeepsMeaning, href] at hkeeps
    simpa only [declaredName?, href] using denoted?_ref h hkeeps
  | none =>
    simp only [KeepsMeaning, href] at hkeeps
    exact denoted?_name h hroot hkeeps href hc

/-- A grammar that binds a prefix to another namespace and declares an element with an assertion. -/
def orderGrammar (pre : String) : Element where
  tag := orderRoot
  children := [
    annotation [schNode "ns" [("prefix", pre), ("uri", "urn:other")] []],
    xsNode "element" [("name", "order")] [
      annotation [schNode "assert" [("test", "item")] [.text "items"]]]]

def orderDeclaration : Tag where
  name := .inNamespace xmlSchemaUri "xs" "element"
  attributes := [⟨.plain "name", "order"⟩]

def orderSite : Site where
  ancestors := [⟨.inNamespace xmlSchemaUri "xs" "annotation", [], []⟩, orderDeclaration, orderRoot]
  note := {
    tag := ⟨.inNamespace xmlSchemaUri "xs" "appinfo", [], []⟩
    children := [schNode "assert" [("test", "item")] [.text "items"]] }

theorem wellDeclared_orderRoot : WellDeclared orderRoot.namespaces := ⟨by decide, by decide⟩

theorem orderSite_mem (pre : String) : orderSite ∈ grammarSites (orderGrammar pre) := by
  simp [grammarSites, orderGrammar, orderSite, orderDeclaration, orderRoot, annotation, xsNode,
    schNode, sites, sitesOf, Node.ofParts, QName.is, QName.inNamespace]

theorem orderSite_bare_ne_nil : orderSite.bare ≠ [] := by
  have hbare : orderSite.bare.isEmpty = false := by decide +kernel
  intro hempty
  rw [hempty] at hbare
  cases hbare

theorem declaration?_orderSite :
    declaration? orderSite.ancestors = some (orderDeclaration, [orderRoot]) := by decide +kernel

theorem nameKeepsMeaning_order :
    NameKeepsMeaning (orderGrammar "o") orderDeclaration [orderRoot] := by
  have htarget : (Target.ofSchema (orderGrammar "o")).binding = some ("urn:po", "tns") := by
    decide +kernel
  have hfree : (explicitBindings (orderGrammar "o")).all (·.attr "prefix" != some "tns") = true := by
    decide +kernel
  refine ⟨by decide, fun _ => .inl (by decide), ?_⟩
  intro _ uri p hbinding e he hpre
  obtain ⟨rfl, rfl⟩ := Prod.mk.inj (Option.some.inj (hbinding.symm.trans htarget))
  simpa [hpre] using List.all_eq_true.1 hfree e he

/-- With another prefix in the annotation, the context denotes the declared element. -/
theorem context_denotes_declared_order : ∃ out context,
    schema? (orderGrammar "o") = .ok out ∧ Parts.bareRule context orderSite.bare ∈ out.elements ∧
      denoted? (environmentOf out) context = some ⟨some "urn:po", "order"⟩ := by
  obtain ⟨out, h⟩ : ∃ out, schema? (orderGrammar "o") = .ok out :=
    exists_of_isSome (by decide +kernel)
  obtain ⟨d, outer, context, hd, _, hmem, hdenotes⟩ := context_denotes_declared h
    wellDeclared_orderRoot (orderSite_mem "o") orderSite_bare_ne_nil
  obtain ⟨rfl, rfl⟩ := Prod.mk.inj (Option.some.inj (hd.symm.trans declaration?_orderSite))
  obtain ⟨name, hname, hdenoted⟩ := hdenotes nameKeepsMeaning_order
  have hdeclared : declaredName? (orderGrammar "o") orderDeclaration [orderRoot] =
      some ⟨some "urn:po", "order"⟩ := by decide +kernel
  rw [hname] at hdeclared
  exact ⟨out, context, h, hmem, hdenoted.trans hdeclared⟩

/-- An annotation can take the prefix that stands for the target namespace in a context. -/
theorem not_forall_context_denotes_declared :
    ¬ ∀ (root out : Element) (s : Site), schema? root = .ok out →
      WellDeclared root.tag.namespaces → s ∈ grammarSites root → s.bare ≠ [] →
      ∃ d outer context, declaration? s.ancestors = some (d, outer) ∧
        (Target.ofSchema root).context? d (isGlobal outer) = some context ∧
        denoted? (environmentOf out) context = declaredName? root d outer := by
  intro hall
  obtain ⟨out, h⟩ : ∃ out, schema? (orderGrammar "tns") = .ok out :=
    exists_of_isSome (by decide +kernel)
  obtain ⟨d, outer, context, hd, hcontext, hdenotes⟩ := hall (orderGrammar "tns") out orderSite h
    wellDeclared_orderRoot (orderSite_mem "tns") orderSite_bare_ne_nil
  obtain ⟨rfl, rfl⟩ := Prod.mk.inj (Option.some.inj (hd.symm.trans declaration?_orderSite))
  have hwritten : (Target.ofSchema (orderGrammar "tns")).context? orderDeclaration
      (isGlobal [orderRoot]) = some "tns:order" := by decide +kernel
  obtain rfl : context = "tns:order" := Option.some.inj (hcontext.symm.trans hwritten)
  have hdeclared : declaredName? (orderGrammar "tns") orderDeclaration [orderRoot] =
      some ⟨some "urn:po", "order"⟩ := by decide +kernel
  have hread : ((schema? (orderGrammar "tns")).toOption.bind fun out =>
      denoted? (environmentOf out) "tns:order") = some ⟨some "urn:other", "order"⟩ := by
    decide +kernel
  rw [h] at hread
  have hsame := hread.symm.trans (hdenotes.trans hdeclared)
  exact absurd hsame (by decide)

end Schematron.Embedded
