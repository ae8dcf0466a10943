import Schematron.Proofs.Sequencing
import Schematron.Proofs.Xml.Outline
import Schematron.Rules.Inclusion

/-!
# References that are left

What a reference names is expanded below its root, but the root itself is not looked at again. So
expansion leaves references exactly where a root that takes the place of a reference is one itself
(`hasReference_expand_iff`). An included document that is nothing but a reference to another one is
enough for that (`expand_includingSchema`).
-/
namespace Schematron.Inclusion
open Xml Sequencing

def isReference (t : Tag) : Bool := (Reference.of? t).isSome

/-- Whether an element of a list of nodes, or one below it, is a reference. -/
def hasReference (ns : List Node) : Bool := (Node.elementsOf ns).any fun e => isReference e.tag

/-- The roots that take the place of a reference in the course of expanding a node. -/
inductive Placed (resolver : Resolver) : Context → Node → Element → Prop where
  /-- A reference that inserts is replaced by the root that it names, unless that is a schema. -/
  | root {c t cs target e} (reference : Reference.of? t = some .insert)
      (loaded : load resolver c t = .ok (target, e))
      (whole : e.is schematronUri "schema" = false) : Placed resolver c (.element t cs) e
  /-- What a reference names is expanded where it comes from. -/
  | inside {c t cs r target e n x} (reference : Reference.of? t = some r)
      (loaded : load resolver c t = .ok (target, e)) (child : n ∈ e.children)
      (placed : Placed resolver (c.enter target) n x) : Placed resolver c (.element t cs) x
  | under {c t cs n x} (plain : Reference.of? t = none) (child : n ∈ cs)
      (placed : Placed resolver c n x) : Placed resolver c (.element t cs) x

def PlacesReference (resolver : Resolver) (c : Context) (n : Node) : Prop :=
  ∃ x, Placed resolver c n x ∧ isReference x.tag = true

@[simp] theorem hasReference_nil : hasReference [] = false := rfl

@[simp] theorem hasReference_append (xs ys : List Node) :
    hasReference (xs ++ ys) = (hasReference xs || hasReference ys) := by
  simp only [hasReference, elementsOf_append, List.any_append]

@[simp] theorem hasReference_appendText (s : String) (ns : List Node) :
    hasReference (Node.appendText s ns) = hasReference ns := by
  simp only [hasReference, elementsOf_appendText]

@[simp] theorem hasReference_text (s : String) (ns : List Node) :
    hasReference (.text s :: ns) = hasReference ns := rfl

@[simp] theorem hasReference_element (t : Tag) (cs ns : List Node) :
    hasReference (.element t cs :: ns) = (isReference t || hasReference cs || hasReference ns) := by
  simp only [hasReference, Node.elementsOf, Node.elements, List.cons_append, List.any_cons,
    List.any_append, Bool.or_assoc]

/-- The references below an element are its element children and those below them. -/
theorem hasReference_children (e : Element) :
    hasReference e.children = e.elements.any fun c => hasReference [c.toNode] := by
  rw [Element.elements]
  induction e.children with
  | nil => rfl
  | cons n ns ih =>
    cases n with
    | text s => simpa [List.filterMap_cons, Node.element?] using ih
    | element t cs => simp [Node.element?, Element.toNode, ih]

/-- The namespaces that are declared at an element do not make it a reference. -/
@[simp] theorem isReference_inherit (ns : List Namespace) (t : Tag) :
    isReference (inherit ns t) = isReference t := rfl

theorem isReference_of_none {t : Tag} (h : Reference.of? t = none) : isReference t = false := by
  rw [isReference, h]
  rfl

theorem isReference_of_is_schema {e : Element} (h : e.is schematronUri "schema" = true) :
    isReference e.tag = false := by
  apply isReference_of_none
  simp only [Element.is, Element.name, QName.is, Bool.and_eq_true, beq_iff_eq] at h
  simp [Reference.of?, QName.is, h]

theorem hasReference_spliceChildren (ns : List Namespace) (done cs : List Node) :
    hasReference (spliceChildren ns done cs) = (hasReference done || hasReference cs) := by
  fun_induction spliceChildren ns done cs with
  | case1 done => simp
  | case2 done s rest ih => simp [ih]
  | case3 done t cs rest ih => simp [ih, Bool.or_assoc]

/-- A reference that inserts adds the root that it names, unless that is a schema. -/
theorem hasReference_add (r : Reference) (done : List Node) (e : Element) :
    hasReference (r.add done e) = (hasReference done ||
      (r == .insert && isReference e.tag) || hasReference e.children) := by
  unfold Reference.add
  cases hs : e.is schematronUri "schema" with
  | true => simp [hasReference_spliceChildren, isReference_of_is_schema hs]
  | false =>
    cases r with
    | splice =>
      have h : (Reference.splice == Reference.insert) = false := by decide
      simp [hasReference_spliceChildren, h]
    | insert => simp [Element.toNode, Bool.or_assoc]

section
variable {follow : Context → Tag → Except TransformError Element} {c : Context}

mutual

theorem expandNode_eq_self (done : List Node) {n : Node} (h : hasReference [n] = false) :
    expandNode follow c done n = .ok (done ++ [n]) := by
  match n with
  | .text s => rfl
  | .element t cs =>
    simp only [hasReference_element, hasReference_nil, Bool.or_false, Bool.or_eq_false_iff] at h
    have ht : Reference.of? t = none := by simpa [isReference] using h.1
    simp [expandNode, ht, expandNodes_eq_self [] h.2]

/-- Nodes without references stay as they are. -/
theorem expandNodes_eq_self (done : List Node) {ns : List Node} (h : hasReference ns = false) :
    expandNodes follow c done ns = .ok (done ++ ns) := by
  match ns with
  | [] => simp [expandNodes]
  | n :: ns =>
    rw [← List.singleton_append, hasReference_append, Bool.or_eq_false_iff] at h
    rw [expandNodes, expandNode_eq_self done h.1, ok_bind, expandNodes_eq_self _ h.2,
      List.append_assoc, List.singleton_append]

end

theorem expand_eq_self (resolver : Resolver) (base : Base) {e : Element}
    (h : hasReference e.children = false) : expand resolver base e = .ok e := by
  simp [expand, expandNodes_eq_self [] h]

end

variable {resolver : Resolver}

theorem not_placesReference_text (c : Context) (s : String) :
    ¬ PlacesReference resolver c (.text s) := by
  rintro ⟨x, hx, _⟩
  cases hx

theorem placesReference_of_plain {c : Context} {t : Tag} {cs : List Node}
    (h : Reference.of? t = none) : PlacesReference resolver c (.element t cs) ↔
      ∃ n ∈ cs, PlacesReference resolver c n := by
  constructor
  · rintro ⟨x, hx, href⟩
    cases hx with
    | root reference _ _ => simp [h] at reference
    | inside reference _ _ _ => simp [h] at reference
    | under _ child placed => exact ⟨_, child, x, placed, href⟩
  · rintro ⟨n, hn, x, hx, href⟩
    exact ⟨x, .under h hn hx, href⟩

theorem placesReference_of_reference {c : Context} {t : Tag} {cs : List Node} {r : Reference}
    {target : Target} {e : Element} (h : Reference.of? t = some r)
    (hl : load resolver c t = .ok (target, e)) : PlacesReference resolver c (.element t cs) ↔
      (r = .insert ∧ isReference e.tag = true) ∨
        ∃ n ∈ e.children, PlacesReference resolver (c.enter target) n := by
  constructor
  · rintro ⟨x, hx, href⟩
    cases hx with
    | root reference loaded _ =>
      rw [h] at reference
      rw [hl] at loaded
      cases loaded
      exact .inl ⟨Option.some.inj reference, href⟩
    | inside _ loaded child placed =>
      rw [hl] at loaded
      cases loaded
      exact .inr ⟨_, child, x, placed, href⟩
    | under plain _ _ => simp [h] at plain
  · rintro (⟨rfl, href⟩ | ⟨n, hn, x, hx, href⟩)
    · cases hs : e.is schematronUri "schema" with
      | true => simp [isReference_of_is_schema hs] at href
      | false => exact ⟨e, .root h hl hs, href⟩
    · exact ⟨x, .inside h hl hn hx, href⟩

/-- Following references leaves a reference exactly where one is placed. -/
def LeavesPlaced (resolver : Resolver)
    (follow : Context → Tag → Except TransformError Element) : Prop :=
  ∀ c t cs r e done, Reference.of? t = some r → follow c t = .ok e →
    (hasReference (r.add done e) = true ↔
      hasReference done = true ∨ PlacesReference resolver c (.element t cs))

mutual

/-- The induction is on the nodes; a reference among them is what `follow` makes of it. -/
theorem hasReference_expandNode {follow : Context → Tag → Except TransformError Element}
    (hfollow : LeavesPlaced resolver follow) (c : Context) (done : List Node) (n : Node)
    {out : List Node} (h : expandNode follow c done n = .ok out) :
    hasReference out = true ↔ hasReference done = true ∨ PlacesReference resolver c n := by
  match n with
  | .text s =>
    cases h
    simp [not_placesReference_text]
  | .element t cs =>
    unfold expandNode at h
    cases hr : Reference.of? t with
    | some r =>
      rw [hr] at h
      cases hp : otherParse? t with
      | some p =>
        rw [hp] at h
        cases h
      | none =>
        rw [hp] at h
        obtain ⟨e, he, h⟩ := bind_eq_ok.1 h
        cases h
        exact hfollow c t cs r e done hr he
    | none =>
      rw [hr] at h
      obtain ⟨cs', hcs, h⟩ := bind_eq_ok.1 h
      cases h
      have ih := hasReference_expandNodes hfollow c [] cs hcs
      rw [placesReference_of_plain hr]
      simpa [isReference_of_none hr] using or_congr_right ih

theorem hasReference_expandNodes {follow : Context → Tag → Except TransformError Element}
    (hfollow : LeavesPlaced resolver follow) (c : Context) (done : List Node) (ns : List Node)
    {out : List Node} (h : expandNodes follow c done ns = .ok out) :
    hasReference out = true ↔
      hasReference done = true ∨ ∃ n ∈ ns, PlacesReference resolver c n := by
  match ns with
  | [] =>
    cases h
    simp
  | n :: ns =>
    obtain ⟨next, hn, h⟩ := bind_eq_ok.1 h
    have hhead := hasReference_expandNode hfollow c done n hn
    have htail := hasReference_expandNodes hfollow c next ns h
    rw [htail, hhead]
    simp [or_assoc]

end

/-- The induction is on the length of the chain of references: the children of what a reference
names are expanded, and its root is placed as it is. -/
theorem leavesPlaced_follow (resolver : Resolver) (depth : Nat) :
    LeavesPlaced resolver (follow resolver depth) := by
  induction depth with
  | zero =>
    intro c t cs r e done _ h
    obtain ⟨target, _, h⟩ := bind_eq_ok.1 h
    cases h
  | succ depth ih =>
    intro c t cs r e' done hr h
    obtain ⟨⟨target, e⟩, hl, h⟩ := bind_eq_ok.1 h
    obtain ⟨children, hc, h⟩ := bind_eq_ok.1 h
    cases h
    have hchildren := hasReference_expandNodes ih (c.enter target) [] e.children hc
    rw [hasReference_add, placesReference_of_reference hr hl]
    simpa [or_assoc] using or_congr_right (or_congr_right hchildren)

def Context.start (base : Base) : Context := ⟨base, (base.url.map (·.render)).toList⟩

/-- Expansion leaves a reference below the root exactly if a document or fragment whose root is
itself a reference takes the place of a reference, in the tree or in anything that is included. -/
theorem hasReference_expand_iff {resolver : Resolver} {base : Base} {e out : Element}
    (h : expand resolver base e = .ok out) :
    hasReference out.children = true ↔
      ∃ n ∈ e.children, ∃ x, Placed resolver (.start base) n x ∧ isReference x.tag = true := by
  obtain ⟨children, hc, h⟩ := bind_eq_ok.1 h
  cases h
  have hchildren := hasReference_expandNodes (leavesPlaced_follow resolver resolver.depth)
    (.start base) [] e.children hc
  simpa [PlacesReference] using hchildren

def includingSchema : Element where
  tag := ⟨.inNamespace schematronUri "s" "schema", [⟨some "s", schematronUri⟩], []⟩
  children := [.element ⟨.inNamespace schematronUri "s" "include", [], [⟨.plain "href", "a.sch"⟩]⟩ []]

def includingBase : Base where
  url := some ⟨"http", some ⟨"", "example.com", none⟩, .segments ["main.sch"], none, none⟩
  directory := "/"

/-- The included document is nothing but a reference to another one. -/
def chainedDocuments : Resolver := .ofList [
  ("http://example.com/a.sch",
    "<s:include xmlns:s='http://purl.oclc.org/dsdl/schematron' href='b.sch'/>"),
  ("http://example.com/b.sch",
    "<s:pattern xmlns:s='http://purl.oclc.org/dsdl/schematron' id='b'/>")]

theorem expand_includingSchema : ∃ out,
    expand chainedDocuments includingBase includingSchema = .ok out ∧
      hasReference out.children = true := by
  apply exists_of_any
  decide +kernel

/-- The reference that is left is the root of the included document. -/
theorem hasReference_expand_iff_chain : ∃ out,
    expand chainedDocuments includingBase includingSchema = .ok out ∧
      (hasReference out.children = true ↔ ∃ n ∈ includingSchema.children, ∃ x,
        Placed chainedDocuments (.start includingBase) n x ∧ isReference x.tag = true) ∧
      hasReference out.children = true := by
  obtain ⟨out, h, hr⟩ := expand_includingSchema
  exact ⟨out, h, hasReference_expand_iff h, hr⟩

/-- Expansion can succeed and leave a reference. -/
theorem not_forall_expand_hasReference_eq_false :
    ¬ ∀ (resolver : Resolver) (base : Base) (e out : Element),
      expand resolver base e = .ok out → hasReference out.children = false := by
  intro h
  obtain ⟨out, hx, hr⟩ := expand_includingSchema
  have hnone := h chainedDocuments includingBase includingSchema out hx
  rw [hnone] at hr
  cases hr

end Schematron.Inclusion
