import Schematron.Proofs.Xml.Scopes

/-!
# Outlines

What a tree says, whatever prefixes it is written with: the expanded names of its elements and
attributes, the values of its attributes, and the texts of the elements without child elements. An
element of a document has the same outline when it is copied out (`outline_ofScoped`).
-/
namespace Schematron.Xml

/-- What an element says: its name, its attributes in order, its text if it has no child elements,
and its child elements in order. -/
inductive Outline where
  | element (name : Option String × String)
      (attributes : List ((Option String × String) × String)) (text : Option String)
      (children : List Outline)

namespace Outline

def ofParts (name : QName) (attributes : List Attribute) (text : String) (children : List Outline) :
    Outline :=
  .element name.expanded (attributes.map Attribute.content)
    (if children.isEmpty then some text else none) children

theorem ofParts_congr {name name' : QName} {as as' : List Attribute} {text text' : String}
    {children : List Outline} (hname : name.expanded = name'.expanded)
    (has : as.map Attribute.content = as'.map Attribute.content)
    (htext : children = [] → text = text') :
    ofParts name as text children = ofParts name' as' text' children := by
  rw [ofParts, ofParts, hname, has]
  split
  · rename_i hempty
    rw [htext (List.isEmpty_iff.1 hempty)]
  · rfl

def attributes : Outline → List ((Option String × String) × String)
  | .element _ as _ _ => as

end Outline

mutual

def Node.outlines : Node → List Outline
  | .text _ => []
  | .element t cs => [.ofParts t.name t.attributes (Node.stringValues cs) (Node.outlinesOf cs)]

def Node.outlinesOf : List Node → List Outline
  | [] => []
  | n :: ns => n.outlines ++ Node.outlinesOf ns

end

def Element.outline (e : Element) : Outline :=
  .ofParts e.tag.name e.tag.attributes e.text (Node.outlinesOf e.children)

def ScopedNode.textOf : List ScopedNode → String
  | [] => ""
  | .text s :: ns => s ++ ScopedNode.textOf ns
  | .element _ _ :: ns => ScopedNode.textOf ns

mutual

def ScopedNode.outlines : ScopedNode → List Outline
  | .text _ => []
  | .element t cs =>
    [.ofParts t.name t.attributes (ScopedNode.textOf cs) (ScopedNode.outlinesOf cs)]

def ScopedNode.outlinesOf : List ScopedNode → List Outline
  | [] => []
  | n :: ns => n.outlines ++ ScopedNode.outlinesOf ns

end

theorem elementsOf_append (xs ys : List Node) :
    Node.elementsOf (xs ++ ys) = Node.elementsOf xs ++ Node.elementsOf ys := by
  induction xs with
  | nil => rfl
  | cons x xs ih => simp [Node.elementsOf, ih]

theorem elementsOf_appendText (s : String) (ns : List Node) :
    Node.elementsOf (Node.appendText s ns) = Node.elementsOf ns := by
  fun_induction Node.appendText s ns with
  | case1 ns _ => rfl
  | case2 _ => rfl
  | case3 _ t => rfl
  | case4 _ n rest _ ih => simp only [Node.elementsOf, ih]

theorem Node.outlinesOf_append (xs ys : List Node) :
    Node.outlinesOf (xs ++ ys) = Node.outlinesOf xs ++ Node.outlinesOf ys := by
  induction xs with
  | nil => rfl
  | cons x xs ih => simp [Node.outlinesOf, ih]

theorem Node.outlinesOf_appendText (s : String) (ns : List Node) :
    Node.outlinesOf (Node.appendText s ns) = Node.outlinesOf ns := by
  fun_induction Node.appendText s ns with
  | case1 ns _ => rfl
  | case2 _ => rfl
  | case3 _ t => rfl
  | case4 _ n rest _ ih => simp only [Node.outlinesOf, ih]

theorem Node.stringValues_appendText (s : String) (ns : List Node) :
    Node.stringValues (Node.appendText s ns) = Node.stringValues ns ++ s := by
  fun_induction Node.appendText s ns with
  | case1 ns hs => simp [String.isEmpty_iff.1 hs]
  | case2 _ => simp [Node.stringValues, Node.stringValue]
  | case3 _ t => simp [Node.stringValues, Node.stringValue]
  | case4 _ n rest _ ih => simp only [Node.stringValues, ih, String.append_assoc]

theorem ScopedNode.outlinesOf_append (xs ys : List ScopedNode) :
    ScopedNode.outlinesOf (xs ++ ys) = ScopedNode.outlinesOf xs ++ ScopedNode.outlinesOf ys := by
  induction xs with
  | nil => rfl
  | cons x xs ih => simp [ScopedNode.outlinesOf, ih]

theorem stringValues_toTrees {inherited : List Namespace} {done : List Node} {ns : List ScopedNode}
    (h : ScopedNode.outlinesOf ns = []) :
    Node.stringValues (ScopedNode.toTrees inherited done ns) =
      Node.stringValues done ++ ScopedNode.textOf ns := by
  induction ns generalizing done with
  | nil => simp [ScopedNode.toTrees, ScopedNode.textOf]
  | cons n ns ih =>
    cases n with
    | text s =>
      rw [ScopedNode.toTrees, ih h, Node.stringValues_appendText, ScopedNode.textOf,
        String.append_assoc]
    | element t cs => simp [ScopedNode.outlinesOf, ScopedNode.outlines] at h

mutual

theorem outlines_toTree (inherited : List Namespace) (n : ScopedNode) :
    (n.toTree inherited).outlines = n.outlines := by
  match n with
  | .text s => rfl
  | .element t cs =>
    have hcs : Node.outlinesOf (ScopedNode.toTrees t.scope [] cs) = ScopedNode.outlinesOf cs :=
      outlinesOf_toTrees t.scope [] cs
    rw [ScopedNode.toTree, Node.outlines, ScopedNode.outlines, hcs]
    refine congrArg ([·]) (Outline.ofParts_congr rfl rfl fun hnone => ?_)
    rw [stringValues_toTrees hnone]
    simp [Node.stringValues]

theorem outlinesOf_toTrees (inherited : List Namespace) (done : List Node) (ns : List ScopedNode) :
    Node.outlinesOf (ScopedNode.toTrees inherited done ns) =
      Node.outlinesOf done ++ ScopedNode.outlinesOf ns := by
  match ns with
  | [] => simp [ScopedNode.toTrees, ScopedNode.outlinesOf]
  | .text s :: ns =>
    have hns := outlinesOf_toTrees inherited (Node.appendText s done) ns
    rw [ScopedNode.toTrees, hns, Node.outlinesOf_appendText]
    rfl
  | .element t cs :: ns =>
    have hn := outlines_toTree inherited (.element t cs)
    have hns := outlinesOf_toTrees inherited
      (done ++ [ScopedNode.toTree inherited (.element t cs)]) ns
    rw [ScopedNode.toTrees, hns, Node.outlinesOf_append, ScopedNode.outlinesOf, Node.outlinesOf, hn]
    simp [Node.outlinesOf]

end

theorem outlines_toNode (e : Element) : e.toNode.outlines = [e.outline] := rfl

/-- An element has the same outline when it is copied out. -/
theorem outline_ofScoped (e : ScopedElement) :
    [(Element.ofScoped e).outline] = ScopedNode.outlines (.element e.tag e.children) := by
  have h := outlines_toTree [] (.element e.tag e.children)
  rw [← h, ← outlines_toNode]
  simp [Element.ofScoped, Element.toNode, ScopedNode.toTree]

end Schematron.Xml
