import Schematron.Proofs.Xml.Outline
import Schematron.Proofs.Xml.Parsed
import Schematron.Proofs.Xml.RoundTrip

/-!
# Writing what has been read

A document that has been read is copied out, written, and read again. Its names are written with
other prefixes than before and its namespaces are declared elsewhere, but the outline of the tree
stays the same, as long as the tree is one that can be read again (`outline_reparsed`). A tag is
readable where the bindings in scope give its names their namespaces; `isReadable_toTree` follows
these bindings down the tree, beside those of the document that was read.
-/
namespace Schematron.Xml
open Schematron.Text Scan

/-- A tag that is read again with what it means, below an element with the given bindings. -/
structure Tag.IsReadable (inherited : List Namespace) (t : Tag) : Prop where
  written : t.IsWritable
  uris : ∀ n ∈ t.namespaces, IsXmlValue n.uri
  values : ∀ a ∈ t.attributes, IsXmlValue a.value
  read : scopedTag? inherited t.name.raw t.values =
    some (t.renamed (scopeWith t.namespaces inherited))

/-- If there are no elements in a list of nodes, its text is read as it was written. -/
def Node.KeepText (ns : List Node) : Prop :=
  Node.outlinesOf ns = [] → '\r' ∉ (Node.stringValues ns).toList

mutual

/-- Whether a node is read again with what it means, directly after text or not. -/
def Node.IsReadable (inherited : List Namespace) (afterText : Bool) : Node → Prop
  | .text s => afterText = false ∧ s ≠ "" ∧ IsXmlText s
  | .element t cs => t.IsReadable inherited ∧ Node.KeepText cs ∧
      Node.AreReadable (scopeWith t.namespaces inherited) false cs

def Node.AreReadable (inherited : List Namespace) (afterText : Bool) : List Node → Prop
  | [] => True
  | n :: ns => n.IsReadable inherited afterText ∧ Node.AreReadable inherited n.isText ns

end

mutual

theorem Node.IsReadable.isWritable {inherited : List Namespace} {afterText : Bool} (n : Node)
    (h : n.IsReadable inherited afterText) : n.IsWritable Tag.IsWritable afterText := by
  match n with
  | .text s => exact h
  | .element t cs => exact ⟨h.1.written, Node.AreReadable.areWritable cs h.2.2⟩

theorem Node.AreReadable.areWritable {inherited : List Namespace} {afterText : Bool}
    (ns : List Node) (h : Node.AreReadable inherited afterText ns) :
    Node.AreWritable Tag.IsWritable afterText ns := by
  match ns with
  | [] => trivial
  | n :: ns => exact ⟨Node.IsReadable.isWritable n h.1, Node.AreReadable.areWritable ns h.2⟩

end

theorem outlinesOf_lineNodes (scope : List Namespace) (depth : Nat) (afterText : Bool) :
    ScopedNode.outlinesOf (Node.scopedAll scope (lineNodes depth afterText)) = [] := by
  cases afterText <;> rfl

theorem outlinesOf_closingNodes (scope : List Namespace) (depth : Nat) (cs : List Node) :
    ScopedNode.outlinesOf (Node.scopedAll scope (closingNodes depth cs)) = [] := by
  rw [closingNodes]
  split
  · rfl
  · exact outlinesOf_lineNodes scope depth (endsInText cs)

/-- Readable nodes without elements are one text at most. -/
theorem Node.AreReadable.eq_text {inherited : List Namespace} {ns : List Node}
    (h : Node.AreReadable inherited false ns) (hnone : Node.outlinesOf ns = []) :
    ns = [] ∨ ∃ s, ns = [.text s] := by
  match ns with
  | [] => exact .inl rfl
  | [.text s] => exact .inr ⟨s, rfl⟩
  | .text s :: .text s' :: ns => cases h.2.1.1
  | .text s :: .element t cs :: ns => simp [Node.outlinesOf, Node.outlines] at hnone
  | .element t cs :: ns => simp [Node.outlinesOf, Node.outlines] at hnone

section
variable {x : Expansion}

mutual

theorem exists_addTokens_tokens (hx : x.inEntity = false) {scope : List Namespace}
    (depth : Nat) (afterText : Bool) (n : Node) (h : n.IsReadable scope afterText) : ∃ ms,
      (∀ r : Reading, r.scope = scope →
        addTokens x (n.tokens depth afterText) r = some (r.addAll ms)) ∧
      ScopedNode.outlinesOf ms = n.outlines ∧ (∀ s, n = .text s → ms = [.text (settle s)]) := by
  match n with
  | .text s =>
    refine ⟨[.text (settle s)], fun r _ => ?_, rfl, fun s' hs => ?_⟩
    · rw [Node.tokens, addTokens_cons, addToken_text hx h.2.1]
      rfl
    · cases hs
      rfl
  | .element t cs =>
    obtain ⟨ht, hkeep, hcs⟩ := h
    obtain ⟨ms, hms, houtlines, hnil, htext⟩ :=
      exists_addTokens_tokensOf hx (depth + 1) false cs hcs
    have hread := ht.read
    have hname : (t.renamed (scopeWith t.namespaces scope)).name.expanded = t.name.expanded :=
      QName.expanded_renamed (scopeWith t.namespaces scope) t.name
    have hattributes := t.content_renamed (scopeWith t.namespaces scope)
    have hscope : scopeWith t.namespaces scope =
        (t.renamed (scopeWith t.namespaces scope)).scope := rfl
    generalize t.renamed (scopeWith t.namespaces scope) = tag at hread hname hattributes hscope
    rw [hscope] at hms
    refine ⟨_, fun r hr => addTokens_element hx afterText ht.uris ht.values
      (by rw [hr]; exact hread) hnil hms, ?_, fun s hs => by cases hs⟩
    have hchildren : ScopedNode.outlinesOf
        (ms ++ Node.scopedAll tag.scope (closingNodes depth cs)) = Node.outlinesOf cs := by
      rw [ScopedNode.outlinesOf_append, houtlines, outlinesOf_closingNodes, List.append_nil]
    rw [ScopedNode.outlinesOf_append, outlinesOf_lineNodes, List.nil_append,
      ScopedNode.outlinesOf, ScopedNode.outlines, hchildren, Node.outlines]
    refine congrArg ([·]) (Outline.ofParts_congr hname hattributes fun hnone => ?_)
    -- without child elements there is one text at most, and no line break beside it
    rcases hcs.eq_text hnone with rfl | ⟨s, rfl⟩
    · rw [hnil rfl]
      rfl
    · have hs : settle s = s := by
        refine settle_eq_self ?_
        simpa [Node.stringValues, Node.stringValue] using hkeep hnone
      rw [htext s rfl, hs]
      simp [closingNodes, lineNodes, endsInText, Node.isText, Node.scopedAll, ScopedNode.textOf,
        Node.stringValues, Node.stringValue]

theorem exists_addTokens_tokensOf (hx : x.inEntity = false) {scope : List Namespace}
    (depth : Nat) (afterText : Bool) (ns : List Node) (h : Node.AreReadable scope afterText ns) :
    ∃ ms,
      (∀ r : Reading, r.scope = scope →
        addTokens x (Node.tokensOf depth afterText ns) r = some (r.addAll ms)) ∧
      ScopedNode.outlinesOf ms = Node.outlinesOf ns ∧
      (ns = [] → ms = []) ∧ (∀ s, ns = [.text s] → ms = [.text (settle s)]) := by
  match ns with
  | [] => exact ⟨[], fun r _ => rfl, rfl, fun _ => rfl, fun s hs => by cases hs⟩
  | n :: ns =>
    obtain ⟨ms, hms, houtlines, htext⟩ := exists_addTokens_tokens hx depth afterText n h.1
    obtain ⟨more, hmore, houtlines', hnil, _⟩ :=
      exists_addTokens_tokensOf hx depth n.isText ns h.2
    refine ⟨ms ++ more, fun r hr => ?_, ?_, by simp, fun s hs => ?_⟩
    · rw [Node.tokensOf, addTokens_append, hms r hr, Option.bind_some,
        hmore _ (by rw [Reading.scope_addAll, hr]), Reading.addAll_append]
    · rw [ScopedNode.outlinesOf_append, houtlines, houtlines', Node.outlinesOf]
    · rw [List.cons.injEq] at hs
      rw [htext s hs.1, hnil hs.2, List.append_nil]

end

end

theorem addAll_empty (ns : List ScopedNode) :
    ({} : Reading).addAll ns = { top := ns.reverse } := by
  have hall (top : List ScopedNode) (ns : List ScopedNode) :
      ({ top := top } : Reading).addAll ns = { top := ns.reverse ++ top } := by
    induction ns generalizing top with
    | nil => rfl
    | cons n ns ih =>
      have hadd : ({ top := top } : Reading).add n = { top := n :: top } := rfl
      rw [Reading.addAll, List.foldl_cons, ← Reading.addAll, hadd, ih]
      simp
  rw [hall, List.append_nil]

/-- Among nodes with one outline, the first element is found, and it has that outline. -/
theorem exists_root {ns : List ScopedNode} {o : Outline} (h : ScopedNode.outlinesOf ns = [o])
    {root? : ScopedNode → Option Document} (htext : ∀ s, root? (.text s) = none)
    (helement : ∀ t cs, root? (.element t cs) = some ⟨⟨t, cs⟩⟩) :
    ∃ e : ScopedElement, ns.findSome? root? = some ⟨e⟩ ∧
      ScopedNode.outlines (.element e.tag e.children) = [o] := by
  induction ns with
  | nil => cases h
  | cons n ns ih =>
    cases n with
    | text s =>
      obtain ⟨e, he, ho⟩ := ih h
      exact ⟨e, by rw [List.findSome?_cons, htext, he], ho⟩
    | element t cs =>
      rw [ScopedNode.outlinesOf, ScopedNode.outlines, List.singleton_append, List.cons.injEq] at h
      exact ⟨⟨t, cs⟩, by rw [List.findSome?_cons, helement], by rw [ScopedNode.outlines, h.1]⟩

/-- A readable tree is read again with the same outline. -/
theorem parse?_render_of_isReadable {e : Element} (h : e.toNode.IsReadable [] true) :
    ∃ e', Element.parse? e.render = some e' ∧ e'.outline = e.outline := by
  have hdocument : whole? Scanner.document e.render.toList =
      some ([], Node.tokens 0 true e.toNode) :=
    document_render (fun t ht => ht) h.1.written (Node.AreReadable.areWritable e.children h.2.2)
  obtain ⟨ms, hms, houtlines, _⟩ :=
    exists_addTokens_tokens (x := topExpansion []) rfl 0 true e.toNode h
  have hread := hms {} rfl
  rw [addAll_empty] at hread
  rw [outlines_toNode] at houtlines
  obtain ⟨root, hparse, hsame⟩ : ∃ root : ScopedElement,
      Document.parse? e.render = some ⟨root⟩ ∧
        ScopedNode.outlines (.element root.tag root.children) = [e.outline] := by
    simp only [Document.parse?, hdocument, Option.bind_eq_bind, Option.bind_some, hread,
      List.reverse_reverse]
    exact exists_root houtlines (fun _ => rfl) fun _ _ => rfl
  refine ⟨.ofScoped root, by rw [Element.parse?, hparse]; rfl, ?_⟩
  have houtline := outline_ofScoped root
  rw [hsame, List.cons.injEq] at houtline
  exact houtline.1

/-- An element that can be read again: its tag can, and its text holds no carriage returns if it is
all there is in it. -/
structure Element.IsFaithful (e : Element) : Prop where
  tag : e.tag.IsFaithful
  text : e.elements = [] → '\r' ∉ e.text.toList

structure Document.IsFaithful (d : Document) : Prop where
  /-- No element binds a prefix twice. -/
  scopes : ∀ e ∈ d.elements, (e.tag.scope.map (·.namespacePrefix)).Nodup
  elements : ∀ e ∈ d.tree.descendants, e.IsFaithful

instance : DecidablePred Tag.IsFaithful := fun t =>
  decidable_of_iff ((∀ n ∈ t.namespaces, IsXmlValue n.uri) ∧
      (∀ a ∈ t.attributes, IsXmlValue a.value ∧
        (a.name.namespaceUri.isSome → a.name.namespacePrefix.isSome) ∧
          a.name.namespacePrefix ≠ some "xmlns") ∧ t.name.namespacePrefix ≠ some "xmlns")
    ⟨fun ⟨huris, hattributes, hname⟩ => ⟨huris, fun a ha => (hattributes a ha).1,
        fun a ha => (hattributes a ha).2.1, hname, fun a ha => (hattributes a ha).2.2⟩,
      fun h => ⟨h.uris, fun a ha => ⟨h.values a ha, h.prefixed a ha, h.names a ha⟩, h.name⟩⟩

instance : DecidablePred Element.IsFaithful := fun e =>
  decidable_of_iff (e.tag.IsFaithful ∧ (e.elements.isEmpty = true → '\r' ∉ e.text.toList))
    ⟨fun h => ⟨h.1, fun hnone => h.2 (by simp [hnone])⟩,
      fun h => ⟨h.tag, fun hempty => h.text (List.isEmpty_iff.1 hempty)⟩⟩

instance : DecidablePred Document.IsFaithful := fun d =>
  decidable_of_iff ((∀ e ∈ d.elements, (e.tag.scope.map (·.namespacePrefix)).Nodup) ∧
      ∀ e ∈ d.tree.descendants, e.IsFaithful)
    ⟨fun h => ⟨h.1, h.2⟩, fun h => ⟨h.scopes, h.elements⟩⟩

theorem outlinesOf_eq_nil {ns : List Node} :
    Node.outlinesOf ns = [] ↔ ns.filterMap Node.element? = [] := by
  induction ns with
  | nil => simp [Node.outlinesOf]
  | cons n ns ih =>
    cases n with
    | text s => simpa [Node.outlinesOf, Node.outlines, Node.element?] using ih
    | element t cs => simp [Node.outlinesOf, Node.outlines, Node.element?]

theorem Node.AreReadable.appendText {inherited : List Namespace} {afterText : Bool}
    {ns : List Node} (h : Node.AreReadable inherited afterText ns) {s : String} (hs : IsXmlText s)
    (hne : afterText = true → ns ≠ []) :
    Node.AreReadable inherited afterText (Node.appendText s ns) := by
  fun_induction Node.appendText s ns generalizing afterText with
  | case1 ns hempty => exact h
  | case2 hempty =>
    have hbefore : afterText = false := by
      cases afterText with
      | true => exact absurd rfl (hne rfl)
      | false => rfl
    exact ⟨⟨hbefore, by simpa using hempty, hs⟩, trivial⟩
  | case3 hempty t =>
    obtain ⟨⟨hbefore, ht, htext⟩, _⟩ := h
    refine ⟨⟨hbefore, ?_, ?_⟩, trivial⟩
    · simp [ht]
    · rw [IsXmlText, String.toList_append, List.all_append, htext, hs]
      rfl
  | case4 hempty n rest hrest ih =>
    refine ⟨h.1, ih h.2 fun htext hnil => ?_⟩
    cases n with
    | text t => exact hrest t rfl hnil
    | element t cs => cases htext

theorem Node.AreReadable.append_element {inherited : List Namespace} {afterText : Bool}
    {ns : List Node} (h : Node.AreReadable inherited afterText ns) {t : Tag} {cs : List Node}
    (hn : ∀ b, Node.IsReadable inherited b (.element t cs)) :
    Node.AreReadable inherited afterText (ns ++ [.element t cs]) := by
  induction ns generalizing afterText with
  | nil => exact ⟨hn afterText, trivial⟩
  | cons n ns ih => exact ⟨h.1, ih h.2⟩

theorem elementsOf_toTrees (inherited : List Namespace) (done : List Node) (ns : List ScopedNode) :
    Node.elementsOf (ScopedNode.toTrees inherited done ns) =
      Node.elementsOf done ++ ns.flatMap fun n => (n.toTree inherited).elements := by
  induction ns generalizing done with
  | nil => simp [ScopedNode.toTrees]
  | cons n ns ih =>
    cases n with
    | text s =>
      rw [ScopedNode.toTrees, ih, elementsOf_appendText]
      simp [ScopedNode.toTree, Node.elements]
    | element t cs =>
      rw [ScopedNode.toTrees, ih, elementsOf_append]
      simp [Node.elementsOf]

mutual

theorem isReadable_toTree {inherited inherited' : List Namespace}
    (hparent : (inherited.map (·.namespacePrefix)).Nodup)
    (hsame : ∀ p, lookup? inherited' p = lookup? inherited p) (t : ScopedTag)
    (cs : List ScopedNode) (hsound : ScopedNode.IsSound inherited (.element t cs))
    (hscopes : ∀ e ∈ ScopedNode.elements (.element t cs),
      (e.tag.scope.map (·.namespacePrefix)).Nodup)
    (hfaithful : ∀ e ∈ (ScopedNode.toTree inherited (.element t cs)).elements, e.IsFaithful)
    (afterText : Bool) :
    (ScopedNode.toTree inherited (.element t cs)).IsReadable inherited' afterText := by
  rw [ScopedNode.toTree, Node.elements, List.forall_mem_cons] at hfaithful
  rw [ScopedNode.elements, List.forall_mem_cons] at hscopes
  obtain ⟨⟨htag, htext⟩, hbelow⟩ := hfaithful
  have hrewritten : ∀ p, lookup? (scopeWith (t.toTag inherited).namespaces inherited') p =
      lookup? t.scope p := lookup?_rewritten hscopes.1 hparent hsound.1.inherits hsame
  have hread := hsound.1.scopedTag?_rewritten htag hscopes.1 rfl hrewritten
  have hchildren := areReadable_toTrees hscopes.1 hrewritten [] trivial cs hsound.2 hscopes.2 hbelow
  refine ⟨⟨hsound.1.isWritable htag, htag.uris, htag.values, hread⟩, fun hnone => ?_, hchildren⟩
  exact htext (outlinesOf_eq_nil.1 hnone)

theorem areReadable_toTrees {scope scope' : List Namespace}
    (hdistinct : (scope.map (·.namespacePrefix)).Nodup)
    (hsame : ∀ p, lookup? scope' p = lookup? scope p) (done : List Node)
    (hdone : Node.AreReadable scope' false done) (ns : List ScopedNode)
    (hsound : ScopedNode.AreSound scope ns)
    (hscopes : ∀ e ∈ ScopedNode.elementsOf ns, (e.tag.scope.map (·.namespacePrefix)).Nodup)
    (hfaithful : ∀ e ∈ Node.elementsOf (ScopedNode.toTrees scope done ns), e.IsFaithful) :
    Node.AreReadable scope' false (ScopedNode.toTrees scope done ns) := by
  match ns with
  | [] => exact hdone
  | .text s :: ns =>
    exact areReadable_toTrees hdistinct hsame _ (hdone.appendText hsound.1 (by simp)) ns hsound.2
      hscopes hfaithful
  | .element t cs :: ns =>
    rw [ScopedNode.elementsOf, List.forall_mem_append] at hscopes
    have hn : ∀ b, Node.IsReadable scope' b (ScopedNode.toTree scope (.element t cs)) := by
      refine isReadable_toTree hdistinct hsame t cs hsound.1 hscopes.1 fun e he => ?_
      refine hfaithful e ?_
      rw [elementsOf_toTrees]
      simp [he]
    exact areReadable_toTrees hdistinct hsame _ (hdone.append_element hn) ns hsound.2
      hscopes.2 hfaithful

end

/-- Parsing undoes writing: a document that has been read is written as a tree that is read again,
with the same outline. -/
theorem outline_reparsed {text : String} {d : Document} (h : Document.parse? text = some d)
    (hfaithful : d.IsFaithful) : Element.parse? text = some d.tree ∧
      ∃ e, Element.parse? d.tree.render = some e ∧ e.outline = d.tree.outline := by
  have hnode : d.tree.toNode = ScopedNode.toTree [] (.element d.root.tag d.root.children) := by
    simp [Document.tree, Element.ofScoped, Element.toNode, ScopedNode.toTree]
  have hnone : (([] : List Namespace).map (·.namespacePrefix)).Nodup := List.nodup_nil
  have hreadable : d.tree.toNode.IsReadable [] true := by
    have hall : ∀ e ∈ d.tree.toNode.elements, e.IsFaithful := hfaithful.elements
    rw [hnode] at hall ⊢
    exact isReadable_toTree hnone (fun _ => rfl) d.root.tag d.root.children
      (isSound_parse? h) hfaithful.scopes hall true
  refine ⟨?_, parse?_render_of_isReadable hreadable⟩
  rw [Element.parse?, h]
  rfl

/-- A prefix that is bound anew below, an attribute with it, a default namespace, a reference and
character data. -/
def prefixedText : String :=
  "<a xmlns='urn:u' xmlns:p='urn:v' p:x='1'><p:b xmlns:p='urn:w' y='&lt;'>t<![CDATA[<]]></p:b></a>"

theorem outline_reparsed_prefixed : ∃ d, Document.parse? prefixedText = some d ∧ d.IsFaithful ∧
    ∃ e, Element.parse? d.tree.render = some e ∧ e.outline = d.tree.outline := by
  have hall : ((Document.parse? prefixedText).any fun d => decide d.IsFaithful) = true := by
    decide +kernel
  obtain ⟨d, hd, hfaithful⟩ := (Option.any_eq_true _ _).1 hall
  have hfaithful : d.IsFaithful := of_decide_eq_true hfaithful
  exact ⟨d, hd, hfaithful, (outline_reparsed hd hfaithful).2⟩

/-- The default namespace is also that of an attribute. -/
def defaultText : String := "<a xmlns='urn:u' xmlns:p='urn:u' p:x='1'/>"

/-- Not every tree is read again: an attribute is written with the default namespace, which
attributes do not have. -/
theorem not_forall_outline_reparsed : ¬ ∀ text e, Element.parse? text = some e →
    ∃ e', Element.parse? e.render = some e' ∧ e'.outline = e.outline := by
  intro h
  have hbefore : ((Element.parse? defaultText).any fun e =>
      decide (e.outline.attributes = [((some "urn:u", "x"), "1")])) = true := by decide +kernel
  have hafter : (((Element.parse? defaultText).bind fun e => Element.parse? e.render).any fun e =>
      decide (e.outline.attributes = [((none, "x"), "1")])) = true := by decide +kernel
  obtain ⟨e, he, hx⟩ := (Option.any_eq_true _ _).1 hbefore
  obtain ⟨e', he', houtline⟩ := h defaultText e he
  rw [he, Option.bind_some, he'] at hafter
  have hx' := of_decide_eq_true hafter
  rw [houtline, of_decide_eq_true hx] at hx'
  revert hx'
  decide

end Schematron.Xml
