import Schematron.Proofs.Report.Entries

/-!
# Reports of fewer patterns

An entry of a report belongs to the last active pattern before it. `Report.restrictedTo` takes the
entries of all other patterns out of a report and changes the name of its phase.
-/
namespace Schematron.Report
open Xml

def isActivePattern (e : Element) : Bool := e.is svrlUri "active-pattern"

/-- The elements of a report that belong to listed patterns, or to none; `kept` says whether the
elements belong to a listed pattern up to the next active pattern. -/
def keepPatterns (listed : String → Bool) (kept : Bool) : List Element → List Element
  | [] => []
  | e :: es =>
    let kept := if isActivePattern e then (e.attr "id").any listed else kept
    if kept then e :: keepPatterns listed kept es else keepPatterns listed kept es

def restrictedTo (r : Report) (phase : String) (listed : String → Bool) : Report :=
  ⟨{ r.root.setAttr "phase" phase with
    children := (keepPatterns listed true r.root.elements).map Element.toNode }⟩

theorem isActivePattern_element (e : Entry) :
    isActivePattern e.element = (e.elementName == "active-pattern") := is_element e _

theorem id_activePattern (id name : Option String) (document : String) :
    (Entry.activePattern id name document).element.attr "id" = id := by
  simp [Entry.element, svrl]

/-- Between two active patterns either everything stays or nothing. -/
theorem keepPatterns_append {listed : String → Bool} {xs : List Element}
    (h : ∀ x ∈ xs, isActivePattern x = false) (kept : Bool) (ys : List Element) :
    keepPatterns listed kept (xs ++ ys) =
      (if kept then xs else []) ++ keepPatterns listed kept ys := by
  induction xs with
  | nil => simp
  | cons x xs ih =>
    have hx := h x List.mem_cons_self
    have ih := ih fun y hy => h y (List.mem_cons_of_mem x hy)
    cases kept with
    | true => simpa [keepPatterns, hx] using ih
    | false => simpa [keepPatterns, hx] using ih

/-- Groups of entries, each of which starts with an active pattern and has no other, stay or go as a
whole. -/
theorem keepPatterns_groups {α : Type} {listed : String → Bool} {group : α → List Element}
    {stays : α → Bool} (as : List α)
    (h : ∀ a ∈ as, ∃ e es, group a = e :: es ∧ isActivePattern e = true ∧
      (e.attr "id").any listed = stays a ∧ ∀ x ∈ es, isActivePattern x = false)
    (kept : Bool) :
    keepPatterns listed kept (as.flatMap group) = (as.filter stays).flatMap group := by
  induction as generalizing kept with
  | nil => rfl
  | cons a as ih =>
    obtain ⟨e, es, hg, he, hid, hes⟩ := h a List.mem_cons_self
    have ih := ih fun b hb => h b (List.mem_cons_of_mem a hb)
    have hstep : keepPatterns listed kept ((a :: as).flatMap group) =
        (if stays a then [e] else []) ++ keepPatterns listed (stays a) (es ++ as.flatMap group) := by
      rw [List.flatMap_cons, hg, List.cons_append]
      cases hs : stays a with
      | true => simp [keepPatterns, he, hid, hs]
      | false => simp [keepPatterns, he, hid, hs]
    rw [hstep, keepPatterns_append hes, ih]
    cases hl : stays a with
    | true => simp [hl, hg]
    | false => simp [hl]

/-- The tag of a report names the phase in one place. -/
theorem setAttr_tag_header (h : Header) (phase : String) :
    h.element.tag.setAttr "phase" phase = ({ h with phase := phase } : Header).element.tag := by
  simp only [Header.element, pushAll_eq, Element.withAttr, Element.declare, Tag.withAttr, Tag.declare,
    Tag.setAttr, Tag.putAttr_putAttr]

theorem root_ofEntries (h : Header) (es : List Entry) :
    (ofEntries h es).root = ⟨h.element.tag,
      (h.namespaces.map namespaceElement ++ es.map Entry.element).map Element.toNode⟩ := by
  have hnil : (((((svrl "schematron-output").withAttr "title" h.title).withAttr "schemaVersion"
      h.schemaVersion).withAttr "phase" (some h.phase)).declare (some "svrl") svrlUri).children =
        [] := rfl
  simp only [ofEntries, Header.element, pushAll_eq, hnil, List.nil_append, List.map_append]

/-- Taking patterns out of a report gives the report of the entries that are left. -/
theorem restrictedTo_ofEntries (h : Header) (phase : String) {es es' : List Entry}
    {listed : String → Bool}
    (hkeep : keepPatterns listed true (es.map Entry.element) = es'.map Entry.element) :
    (ofEntries h es).restrictedTo phase listed = ofEntries { h with phase := phase } es' := by
  have hns : ∀ x ∈ h.namespaces.map namespaceElement, isActivePattern x = false := by
    intro x hx
    obtain ⟨n, _, rfl⟩ := List.mem_map.1 hx
    simp [isActivePattern, is_namespaceElement]
  have hall : keepPatterns listed true (ofEntries h es).root.elements =
      h.namespaces.map namespaceElement ++ es'.map Entry.element := by
    rw [elements_ofEntries, keepPatterns_append hns, hkeep]
    rfl
  have hroot : (ofEntries { h with phase := phase } es').root =
      ⟨h.element.tag.setAttr "phase" phase,
        (h.namespaces.map namespaceElement ++ es'.map Entry.element).map Element.toNode⟩ := by
    rw [root_ofEntries, setAttr_tag_header]
  rw [restrictedTo, hall, Element.setAttr, root_ofEntries h es, ← hroot]

end Schematron.Report
