import Schematron.Proofs.Sequencing
import Schematron.Proofs.Xml.Attributes
import Schematron.Rules.Embedded

/-!
# The annotations of a grammar

The rules of a grammar are collected from its annotations one after the other. Each annotation is
added with the context of the innermost element declaration around it (`collect_eq`).
-/
namespace Schematron.Embedded
open Xml Sequencing

/-- An annotation and the tags around it, the innermost first. -/
structure Site where
  ancestors : List Tag
  note : Element

namespace Site

/-- The assertions of an annotation that stand in no rule. -/
def bare (s : Site) : List Element := s.note.elements.filter Parts.isBare

def bindings (s : Site) : List Element := s.note.childrenNamed schematronUri "ns"

end Site

mutual

/-- The annotations of a node inside the given tags, in document order. -/
def sites (outer : List Tag) : Node → List Site
  | .text _ => []
  | .element tag cs =>
    if tag.name.is xmlSchemaUri "appinfo" then [⟨outer, ⟨tag, cs⟩⟩] else sitesOf (tag :: outer) cs

def sitesOf (outer : List Tag) : List Node → List Site
  | [] => []
  | n :: ns => sites outer n ++ sitesOf outer ns

end

def grammarSites (root : Element) : List Site := sitesOf [root.tag] root.children

/-- Whether a tag is that of an element declaration with a name or a reference. -/
def declares (tag : Tag) : Bool :=
  tag.name.is xmlSchemaUri "element" && ((tag.attr "ref").isSome || (tag.attr "name").isSome)

/-- The innermost declaration among tags, with the tags around it. -/
def declaration? : List Tag → Option (Tag × List Tag)
  | [] => none
  | tag :: outer => if declares tag then some (tag, outer) else declaration? outer

def isGlobal (outer : List Tag) : Bool := outer.head?.any fun tag => tag.name.is xmlSchemaUri "schema"

def Target.contextOf (t : Target) (ancestors : List Tag) : Option String :=
  (declaration? ancestors).bind fun d => t.context? d.1 (isGlobal d.2)

theorem context?_isSome (t : Target) (tag : Tag) (inRoot : Bool) :
    (t.context? tag inRoot).isSome = ((tag.attr "ref").isSome || (tag.attr "name").isSome) := by
  cases h : tag.attr "ref" <;> simp [Target.context?, h]

theorem contextOf_cons (t : Target) (tag : Tag) (outer : List Tag) :
    t.contextOf (tag :: outer) =
      if tag.name.is xmlSchemaUri "element" then
        (t.context? tag (isGlobal outer)).or (t.contextOf outer)
      else t.contextOf outer := by
  have hsome := context?_isSome t tag (isGlobal outer)
  cases he : tag.name.is xmlSchemaUri "element" with
  | false => simp [Target.contextOf, declaration?, declares, he]
  | true =>
    cases hc : t.context? tag (isGlobal outer) with
    | some c =>
      rw [hc] at hsome
      have hd : declares tag = true := by simpa [declares, he] using hsome.symm
      simp [Target.contextOf, declaration?, hd, hc]
    | none =>
      rw [hc] at hsome
      have hd : declares tag = false := by simpa [declares, he] using hsome.symm
      simp [Target.contextOf, declaration?, hd]

def Target.addSite (t : Target) (p : Parts) (s : Site) : Except TransformError Parts :=
  p.addAnnotation (t.contextOf s.ancestors) s.note

mutual

-- The context that is handed down is that of the tags on the way, which `contextOf_cons` extends.

/-- The annotations of a node are added in document order, each with the context of its place. -/
theorem collect_eq (t : Target) (outer : List Tag) (n : Node) (p : Parts) :
    collect t (isGlobal outer) (t.contextOf outer) n p = (sites outer n).foldlM t.addSite p := by
  cases n with
  | text s => rfl
  | element tag cs =>
    cases h : tag.name.is xmlSchemaUri "appinfo" with
    | true =>
      rw [collect, sites, if_pos h, if_pos h, List.foldlM_cons, Target.addSite]
      exact (bind_pure _).symm
    | false =>
      have hcs := collectAll_eq t (tag :: outer) cs p
      rw [contextOf_cons] at hcs
      simpa [collect, sites, h, isGlobal] using hcs

theorem collectAll_eq (t : Target) (outer : List Tag) (ns : List Node) (p : Parts) :
    collectAll t (isGlobal outer) (t.contextOf outer) ns p =
      (sitesOf outer ns).foldlM t.addSite p := by
  cases ns with
  | nil => rfl
  | cons n ns =>
    rw [collectAll, sitesOf, List.foldlM_append, collect_eq t outer n p]
    congr 1
    funext q
    exact collectAll_eq t outer ns q

end

/-- The schema of a grammar is that of its annotations, added one after the other. -/
theorem schema?_eq {root : Element} (hroot : root.is xmlSchemaUri "schema" = true) :
    schema? root = (fun p => p.schema root (Target.ofSchema root)) <$>
      (grammarSites root).foldlM (Target.ofSchema root).addSite {} := by
  have hglobal : isGlobal [root.tag] = true := hroot
  have hcontext : (Target.ofSchema root).contextOf [root.tag] = none := by
    have hother : root.tag.name.is xmlSchemaUri "element" = false :=
      QName.is_of_ne hroot (by decide)
    rw [contextOf_cons, hother]
    rfl
  have hcollect := collectAll_eq (Target.ofSchema root) [root.tag] root.children {}
  rw [hglobal, hcontext] at hcollect
  rw [schema?, if_pos hroot, grammarSites, ← hcollect]
  rfl

/-- The namespace bindings that the annotations of a grammar write out. -/
def explicitBindings (root : Element) : List Element := (grammarSites root).flatMap Site.bindings

/-- The bindings that the schema of a grammar has besides those. -/
def addedBindings (root : Element) : List (String × String) :=
  freshBindings ((explicitBindings root).filterMap (·.attr "prefix"))
    (implicitBindings root (Target.ofSchema root))

def xsNode (localName : String) (attributes : List (String × String)) (children : List Node) :
    Node :=
  .ofParts (.inNamespace xmlSchemaUri "xs" localName) attributes children

def annotation (contents : List Node) : Node :=
  xsNode "annotation" [] [xsNode "appinfo" [] contents]

def orderRoot : Tag where
  name := .inNamespace xmlSchemaUri "xs" "schema"
  namespaces := [⟨some "xs", xmlSchemaUri⟩, ⟨some "sch", schematronUri⟩]
  attributes := [⟨.plain "targetNamespace", "urn:po"⟩]

end Schematron.Embedded
