import Mathlib.Data.List.Chain
import Schematron.Proofs.Xml.Rewriting

/-!
# Well-formed elements

What the elements of all trees have in common: no attribute and no prefix stands in an element
twice, no text in it is empty, and no two of its texts are neighbours. An element that has been read
is well-formed (`isWellFormed_parse?`), and each edit keeps the one that it changes well-formed.

The default namespace is apart. Edits declare it once, but a document may declare it twice in one
element; what it declares with a prefix is always distinct.
-/
namespace Schematron.Xml

theorem QName.isPlain_iff {q : QName} {l : String} : q.isPlain l = true ↔ q.expanded = (none, l) := by
  simp [isPlain, expanded]

namespace Tag

theorem nodup_expanded_putAttr {as : List Attribute} (h : (as.map (·.name.expanded)).Nodup)
    (l v : String) : ((putAttr l v as).map (·.name.expanded)).Nodup := by
  rcases putAttr_cases l v as with ⟨before, a, after, rfl, _, heq⟩ | ⟨hnone, heq⟩
  · rw [heq]
    simpa using h
  · rw [heq]
    refine nodup_map_concat h fun a ha hsame => ?_
    have hplain : a.name.isPlain l = true := QName.isPlain_iff.2 hsame
    rw [hnone a ha] at hplain
    cases hplain

/-- No attribute stands in a tag twice, so the first one of a name is the only one. -/
theorem dropAttr_eq_filter {as : List Attribute} (h : (as.map (·.name.expanded)).Nodup)
    (l : String) : dropAttr l as = as.filter (! ·.name.isPlain l) := by
  induction as with
  | nil => rfl
  | cons a as ih =>
    rw [List.map_cons, List.nodup_cons] at h
    cases ha : a.name.isPlain l with
    | false =>
      have hrest : as.eraseP (·.name.isPlain l) = as.filter (! ·.name.isPlain l) := ih h.2
      simp [dropAttr, ha, hrest]
    | true =>
      have hrest : as.filter (! ·.name.isPlain l) = as := by
        refine List.filter_eq_self.2 fun b hb => ?_
        rw [Bool.not_eq_true', ← Bool.not_eq_true]
        intro hplain
        apply h.1
        rw [QName.isPlain_iff.1 ha, ← QName.isPlain_iff.1 hplain]
        exact List.mem_map_of_mem hb
      simp [dropAttr, ha, hrest]

/-- A prefix is declared where it is declared already, or else at the end. -/
theorem putNamespace_cases (n : Namespace) (ns : List Namespace) :
    (putNamespace n ns).map (·.namespacePrefix) = ns.map (·.namespacePrefix) ∨
    (∀ m ∈ ns, m.namespacePrefix ≠ n.namespacePrefix) ∧ putNamespace n ns = ns ++ [n] := by
  induction ns with
  | nil => exact .inr ⟨by simp, rfl⟩
  | cons m ns ih =>
    by_cases h : m.namespacePrefix = n.namespacePrefix
    · exact .inl (by simp [putNamespace, h])
    · rcases ih with heq | ⟨hnew, heq⟩
      · exact .inl (by simp [putNamespace, h, heq])
      · exact .inr ⟨List.forall_mem_cons.2 ⟨h, hnew⟩, by simp [putNamespace, h, heq]⟩

theorem nodup_prefixes_putNamespace {ns : List Namespace} (h : (Namespace.prefixes ns).Nodup)
    (n : Namespace) : (Namespace.prefixes (putNamespace n ns)).Nodup := by
  rcases putNamespace_cases n ns with heq | ⟨hnew, heq⟩
  · have hsame : Namespace.prefixes (putNamespace n ns) = Namespace.prefixes ns := by
      have hmap := congrArg (List.filterMap id) heq
      rwa [List.filterMap_map, List.filterMap_map] at hmap
    rw [hsame]
    exact h
  · rw [heq]
    exact nodup_prefixes_concat h hnew

theorem nodup_putNamespace {ns : List Namespace} (h : (ns.map (·.namespacePrefix)).Nodup)
    (n : Namespace) : ((putNamespace n ns).map (·.namespacePrefix)).Nodup := by
  rcases putNamespace_cases n ns with heq | ⟨hnew, heq⟩
  · rw [heq]
    exact h
  · rw [heq]
    exact nodup_map_concat h hnew

end Tag

/-- No text among the children of an element is empty, and no two texts are neighbours. -/
structure Node.TextsApart (ns : List Node) : Prop where
  filled : ∀ s, .text s ∈ ns → s ≠ ""
  apart : (ns.map Node.isText).IsChain fun m n => ¬ (m = true ∧ n = true)

namespace Node

theorem textsApart_nil : TextsApart [] := ⟨by simp, List.isChain_nil⟩

theorem TextsApart.concat {ns : List Node} (h : TextsApart ns) {n : Node}
    (hn : ∀ s, n = .text s → s ≠ "") (hlast : endsInText ns = true → n.isText = false) :
    TextsApart (ns ++ [n]) where
  filled s hs := by
    rcases List.mem_append.1 hs with hs | hs
    · exact h.filled s hs
    · exact hn s (List.mem_singleton.1 hs).symm
  apart := by
    rw [List.map_append, List.map_singleton]
    refine h.apart.append (List.isChain_singleton _) fun b hb b' hb' => ?_
    rw [List.getLast?_map, Option.mem_def, Option.map_eq_some_iff] at hb
    obtain ⟨m, hm, rfl⟩ := hb
    rw [List.head?_cons, Option.mem_some_iff] at hb'
    rintro ⟨hmtext, hntext⟩
    have hlast := hlast (by simp [endsInText, hm, hmtext])
    rw [hb', hntext] at hlast
    cases hlast

theorem appendText_concat_text {s : String} (hs : s ≠ "") (ns : List Node) (t : String) :
    appendText s (ns ++ [.text t]) = ns ++ [.text (t ++ s)] := by
  induction ns with
  | nil => simp [appendText, hs]
  | cons n ns ih =>
    obtain ⟨m, ms, hms⟩ := List.exists_cons_of_ne_nil (show ns ++ [.text t] ≠ [] by simp)
    rw [hms] at ih
    simp [appendText, hs, hms, ih]

theorem TextsApart.appendText {ns : List Node} (h : TextsApart ns) (s : String) :
    TextsApart (Node.appendText s ns) := by
  by_cases hs : s = ""
  · have hsame : Node.appendText s ns = ns := by
      rw [Node.appendText.eq_def, if_pos (by simp [hs])]
    rw [hsame]
    exact h
  rcases ns.eq_nil_or_concat' with rfl | ⟨ms, n, rfl⟩
  · rw [appendText_eq_append hs rfl]
    exact h.concat (by simpa using hs) (by simp [endsInText])
  · cases n with
    | element t cs =>
      rw [appendText_eq_append hs (by rw [← endsInText_eq]; simp [endsInText, isText])]
      exact h.concat (by simpa using hs) (by simp [endsInText, isText])
    | text t =>
      rw [appendText_concat_text hs]
      refine ⟨fun s' hs' => ?_, by simpa [isText] using h.apart⟩
      rcases List.mem_append.1 hs' with hs' | hs'
      · exact h.filled s' (List.mem_append_left _ hs')
      · cases List.mem_singleton.1 hs'
        simp [hs]

/-- A child element can be exchanged for another one. -/
theorem TextsApart.replace {before after : List Node} {x : Element}
    (h : TextsApart (before ++ x.toNode :: after)) (y : Element) :
    TextsApart (before ++ y.toNode :: after) where
  filled s hs := by
    rcases List.mem_append.1 hs with hs | hs
    · exact h.filled s (List.mem_append_left _ hs)
    · rcases List.mem_cons.1 hs with hs | hs
      · cases hs
      · exact h.filled s (List.mem_append_right _ (List.mem_cons_of_mem _ hs))
  apart := by
    have hapart := h.apart
    rw [List.map_append, List.map_cons] at hapart ⊢
    exact hapart

end Node

structure Element.IsWellFormed (e : Element) : Prop where
  /-- No two attributes have the same expanded name. -/
  attributes : (e.tag.attributes.map (·.name.expanded)).Nodup
  /-- No prefix is declared twice. -/
  prefixes : (Namespace.prefixes e.tag.namespaces).Nodup
  texts : Node.TextsApart e.children

/-- Nothing is declared twice, and neither is the default namespace. -/
def Element.DeclaresOnce (e : Element) : Prop := (e.tag.namespaces.map (·.namespacePrefix)).Nodup

/-- How often the default namespace is declared. -/
def Element.defaults (e : Element) : Nat := e.tag.namespaces.countP (·.namespacePrefix.isNone)

/-- An element declares nothing twice if that is so with and without a prefix. -/
theorem Element.declaresOnce_iff (e : Element) :
    e.DeclaresOnce ↔ (Namespace.prefixes e.tag.namespaces).Nodup ∧ e.defaults ≤ 1 := by
  rw [DeclaresOnce, defaults]
  induction e.tag.namespaces with
  | nil => simp [Namespace.prefixes]
  | cons n ns ih =>
    rw [List.map_cons, List.nodup_cons, ih]
    cases hn : n.namespacePrefix with
    | none =>
      have hnone : none ∉ ns.map (·.namespacePrefix) ↔
          ns.countP (·.namespacePrefix.isNone) = 0 := by
        simp [List.countP_eq_zero]
      rw [hnone]
      simp only [Namespace.prefixes, List.filterMap_cons_none hn, List.countP_cons, hn,
        Option.isNone_none, if_true]
      constructor
      · rintro ⟨hzero, hns, _⟩
        exact ⟨hns, by omega⟩
      · rintro ⟨hns, hle⟩
        exact ⟨by omega, hns, by omega⟩
    | some p =>
      have hsome : some p ∉ ns.map (·.namespacePrefix) ↔ p ∉ Namespace.prefixes ns := by
        simp [Namespace.prefixes]
      rw [hsome]
      simp [Namespace.prefixes, hn, and_assoc]

theorem Node.textsApart_toTrees (inherited : List Namespace) {done : List Node}
    (h : Node.TextsApart done) (ns : List ScopedNode) :
    Node.TextsApart (ScopedNode.toTrees inherited done ns) := by
  induction ns generalizing done with
  | nil => exact h
  | cons n ns ih =>
    cases n with
    | text s => exact ih (h.appendText s)
    | element t cs => exact ih (h.concat (by simp [ScopedNode.toTree]) fun _ => rfl)

mutual

theorem isWellFormed_toTree (inherited : List Namespace) (n : ScopedNode)
    (h : n.IsSound inherited) : ∀ d ∈ (n.toTree inherited).elements, d.IsWellFormed := by
  match n with
  | .text s => simp [ScopedNode.toTree, Node.elements]
  | .element t cs =>
    obtain ⟨htag, hcs⟩ := h
    rw [ScopedNode.toTree, Node.elements, List.forall_mem_cons, elementsOf_toTrees]
    refine ⟨⟨htag.distinct, htag.declared, Node.textsApart_toTrees t.scope Node.textsApart_nil cs⟩,
      fun d hd => ?_⟩
    obtain ⟨n, hn, hd⟩ := List.mem_flatMap.1 hd
    exact areWellFormed_toTree t.scope cs hcs n hn d hd

theorem areWellFormed_toTree (inherited : List Namespace) (ns : List ScopedNode)
    (h : ScopedNode.AreSound inherited ns) :
    ∀ n ∈ ns, ∀ d ∈ (n.toTree inherited).elements, d.IsWellFormed := by
  match ns with
  | [] => simp
  | n :: ns =>
    rw [List.forall_mem_cons]
    exact ⟨isWellFormed_toTree inherited n h.1, areWellFormed_toTree inherited ns h.2⟩

end

theorem Document.toNode_tree (d : Document) :
    d.tree.toNode = ScopedNode.toTree [] (.element d.root.tag d.root.children) := by
  simp [Document.tree, Element.ofScoped, Element.toNode, ScopedNode.toTree]

/-- Every element of a tree that has been read is well-formed. -/
theorem isWellFormed_parse? {text : String} {e : Element} (h : Element.parse? text = some e) :
    ∀ d ∈ e.descendants, d.IsWellFormed := by
  obtain ⟨d, hd, rfl⟩ := Option.map_eq_some_iff.1 h
  rw [Element.descendants, Document.toNode_tree]
  exact isWellFormed_toTree [] _ (isSound_parse? hd)

end Schematron.Xml
