import Schematron.Proofs.Xml.Attributes
import Schematron.Report.Builder

/-!
# Reading reports back

A report that has been built is its header followed by its entries, and each entry has the name and
the attributes that it was made with.
-/
namespace Schematron.Report
open Xml

def Entry.elementName : Entry → String
  | .activePattern .. => "active-pattern"
  | .firedRule .. => "fired-rule"
  | .finding f => f.kind.elementName

/-- Whether an element of a report binds a prefix; the other elements are entries. -/
def isNamespaceBinding (e : Element) : Bool := e.is svrlUri "ns-prefix-in-attribute-values"

def entries (r : Report) : List Element := r.root.elements.filter (! isNamespaceBinding ·)

theorem pushAll_eq (e : Element) (cs : List Element) :
    cs.foldl (·.push ·) e = { e with children := e.children ++ cs.map Element.toNode } := by
  induction cs generalizing e with
  | nil => simp
  | cons c cs ih =>
    rw [List.foldl_cons, ih]
    simp [Element.push]

theorem is_pushAll (e : Element) (cs : List Element) (u n : String) :
    (cs.foldl (·.push ·) e).is u n = e.is u n := by rw [pushAll_eq]; rfl

theorem attr_pushAll (e : Element) (cs : List Element) (l : String) :
    (cs.foldl (·.push ·) e).attr l = e.attr l := by rw [pushAll_eq]; rfl

@[simp] theorem is_withAttr (e : Element) (l : String) (v : Option String) (u n : String) :
    (e.withAttr l v).is u n = e.is u n := by rw [Element.is, Element.name_withAttr, Element.is]

@[simp] theorem is_push (e c : Element) (u n : String) : (e.push c).is u n = e.is u n := rfl

@[simp] theorem is_svrl (l n : String) : (svrl l).is svrlUri n = (l == n) := by
  simp [svrl, Element.is, Element.ofName, Element.name, QName.is, QName.inNamespace]

theorem is_element (e : Entry) (n : String) : e.element.is svrlUri n = (e.elementName == n) := by
  cases e with
  | activePattern id name document => simp [Entry.element, Entry.elementName]
  | firedRule context id role flag => simp [Entry.element, Entry.elementName]
  | finding f => simp [Entry.element, Entry.elementName, is_pushAll]

theorem isNamespaceBinding_element (e : Entry) : isNamespaceBinding e.element = false := by
  rw [isNamespaceBinding, is_element]
  cases e with
  | finding f => cases h : f.kind <;> simp [Entry.elementName, FindingKind.elementName, h]
  | _ => simp [Entry.elementName]

@[simp] theorem isFiredRule_element (e : Entry) :
    isFiredRule e.element = (e.elementName == "fired-rule") := is_element e _

@[simp] theorem isFailedAssert_element (e : Entry) :
    isFailedAssert e.element = (e.elementName == "failed-assert") := is_element e _

theorem is_namespaceElement (n : String × String) (l : String) :
    (namespaceElement n).is svrlUri l = ("ns-prefix-in-attribute-values" == l) := by
  simp [namespaceElement]

theorem elements_header (h : Header) : h.element.elements = h.namespaces.map namespaceElement := by
  simp only [Header.element, elements_foldl_push]
  rfl

theorem elements_ofEntries (h : Header) (es : List Entry) :
    (ofEntries h es).root.elements = h.namespaces.map namespaceElement ++ es.map Entry.element := by
  rw [ofEntries, elements_foldl_push, elements_header]

theorem entries_ofEntries (h : Header) (es : List Entry) :
    (ofEntries h es).entries = es.map Entry.element := by
  have hn : (h.namespaces.map namespaceElement).filter (! isNamespaceBinding ·) = [] := by
    rw [List.filter_map]
    simp [Function.comp_def, isNamespaceBinding, is_namespaceElement]
  have he : (es.map Entry.element).filter (! isNamespaceBinding ·) = es.map Entry.element := by
    simp [isNamespaceBinding_element]
  rw [entries, elements_ofEntries, List.filter_append, hn, he, List.nil_append]

theorem context_firedRule (context : String) (id role flag : Option String) :
    (Entry.firedRule context id role flag).element.attr "context" = some context := by
  simp [Entry.element, svrl]

theorem role_firedRule (context : String) (id role flag : Option String) :
    (Entry.firedRule context id role flag).element.attr "role" = role := by
  simp [Entry.element, svrl]

theorem test_finding (f : Finding) : (Entry.finding f).element.attr "test" = some f.test := by
  simp [Entry.element, attr_pushAll]

theorem location_finding (f : Finding) :
    (Entry.finding f).element.attr "location" = some f.location := by
  simp [Entry.element, attr_pushAll]

/-- The text of an element to which only a text has been added. -/
theorem stringValue_pushText {e : Element} (h : e.children = []) (s : String) :
    (e.pushText s).toNode.stringValue = s := by
  by_cases hs : s = "" <;> simp [Element.pushText, Element.toNode, Node.appendText,
    Node.stringValue, Node.stringValues, h, hs]

/-- The children of a finding: its diagnostics, then its text. -/
theorem children_finding (f : Finding) :
    (Entry.finding f).element.children =
      f.diagnostics.map (fun d => (diagnosticElement d).toNode) ++
        [((svrl "text").pushText f.text).toNode] := by
  simp only [Entry.element, pushAll_eq]
  simp only [Element.push, List.map_map, Function.comp_def]
  rfl

theorem stringValues_finding (f : Finding) :
    (Entry.finding f).element.children.map Node.stringValue =
      f.diagnostics.map (·.2) ++ [f.text] := by
  have hd : ∀ d : String × String, (diagnosticElement d).toNode.stringValue = d.2 :=
    fun d => stringValue_pushText rfl d.2
  have ht : ((svrl "text").pushText f.text).toNode.stringValue = f.text :=
    stringValue_pushText rfl f.text
  simp only [children_finding, List.map_append, List.map_map, Function.comp_def, hd, List.map_cons,
    ht, List.map_nil]

end Schematron.Report
