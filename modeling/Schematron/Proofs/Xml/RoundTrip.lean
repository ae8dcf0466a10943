import Schematron.Proofs.Xml.LineEnds
import Schematron.Proofs.Xml.Tags

/-!
# Reading written trees

A written tree is read as itself, but with its line ends settled and with the line breaks that were
written before its tags as texts (`parse?_render`).
-/
namespace Schematron.Xml
open Schematron.Text Scan

/-- The text that is read before a tag; none directly after text. -/
def lineNodes (depth : Nat) (afterText : Bool) : List Node :=
  if afterText then [] else [.text (String.ofList (indent depth))]

/-- The text that is read before the end tag of an element; an element without children has none. -/
def closingNodes (depth : Nat) (cs : List Node) : List Node :=
  if cs.isEmpty then [] else lineNodes depth (endsInText cs)

mutual

def Node.reread (depth : Nat) (afterText : Bool) : Node → List Node
  | .text s => [.text (settle s)]
  | .element t cs =>
    lineNodes depth afterText ++
      [.element t (Node.rereadAll (depth + 1) false cs ++ closingNodes depth cs)]

def Node.rereadAll (depth : Nat) (afterText : Bool) : List Node → List Node
  | [] => []
  | n :: ns => n.reread depth afterText ++ Node.rereadAll depth n.isText ns

end

def Element.reread (depth : Nat) (e : Element) : Element :=
  ⟨e.tag, Node.rereadAll (depth + 1) false e.children ++ closingNodes depth e.children⟩

mutual

/-- A node as it is read, where its elements see the bindings in scope and declare none. -/
def Node.scoped (scope : List Namespace) : Node → ScopedNode
  | .text s => .text s
  | .element t cs => .element ⟨t.name, scope, t.attributes⟩ (Node.scopedAll scope cs)

def Node.scopedAll (scope : List Namespace) : List Node → List ScopedNode
  | [] => []
  | n :: ns => n.scoped scope :: Node.scopedAll scope ns

end

theorem Node.scopedAll_append (scope : List Namespace) (xs ys : List Node) :
    Node.scopedAll scope (xs ++ ys) = Node.scopedAll scope xs ++ Node.scopedAll scope ys := by
  induction xs with
  | nil => rfl
  | cons x xs ih => rw [List.cons_append, Node.scopedAll, ih, Node.scopedAll, List.cons_append]

theorem ofList_indent_ne_empty (depth : Nat) : String.ofList (indent depth) ≠ "" := by
  intro h
  simpa [indent] using congrArg String.toList h

namespace Reading

def addAll (r : Reading) (ns : List ScopedNode) : Reading := ns.foldl (fun r n => r.add n) r

@[simp] theorem scope_add (r : Reading) (n : ScopedNode) : (r.add n).scope = r.scope := by
  unfold add
  split <;> rename_i h <;> simp [scope, h]

@[simp] theorem scope_addAll (r : Reading) (ns : List ScopedNode) :
    (r.addAll ns).scope = r.scope := by
  induction ns generalizing r with
  | nil => rfl
  | cons n ns ih => rw [addAll, List.foldl_cons, ← addAll, ih, scope_add]

theorem addAll_append (r : Reading) (ms ns : List ScopedNode) :
    r.addAll (ms ++ ns) = (r.addAll ms).addAll ns := List.foldl_append

/-- Nodes are added to the innermost open element. -/
theorem addAll_opened (r : Reading) (o : OpenElement) (os : List OpenElement)
    (ns : List ScopedNode) :
    { r with opened := o :: os }.addAll ns =
      { r with opened := { o with done := ns.reverse ++ o.done } :: os } := by
  induction ns generalizing o with
  | nil => rfl
  | cons n ns ih =>
    have hadd : { r with opened := o :: os }.add n =
        { r with opened := { o with done := n :: o.done } :: os } := rfl
    rw [addAll, List.foldl_cons, ← addAll, hadd, ih]
    simp

end Reading

section
variable {x : Expansion} (hx : x.inEntity = false)
include hx

/-- A text without entities is added as one text. -/
theorem addToken_text {s : String} (h : s ≠ "") (r : Reading) :
    addToken x r (.text (escape s).toList) = some (r.add (.text (settle s))) := by
  have hne : (settleFrom false [] s.toList).isEmpty = false := by
    have := settle_ne_empty h
    simpa [settle] using this
  simp only [addToken, ofRaw?_escape, hx, Option.bind_eq_bind, Option.bind_some,
    addPieces_ofChar, Reading.flush, hne, settle]
  rfl

theorem addToken_indent (depth : Nat) (r : Reading) :
    addToken x r (.text (indent depth)) = some (r.add (.text (String.ofList (indent depth)))) := by
  have hplain : ∀ c ∈ indent depth, isEscaped c = false ∧ c ≠ '\r' := by
    intro c hc
    have hcases : c = '\n' ∨ c = ' ' := by
      rcases List.mem_cons.1 hc with h | h
      · exact .inl h
      · exact .inr (List.eq_of_mem_replicate h)
    rcases hcases with rfl | rfl <;> decide
  have hescape : (escape (String.ofList (indent depth))).toList = indent depth := by
    have hchars : ∀ c ∈ indent depth, (escapeChar c).toList = [c] :=
      fun c hc => escapeChar_of_not (hplain c hc).1
    rw [toList_escape, String.toList_ofList, List.flatMap_congr hchars, List.flatMap_singleton']
  have hsettle : settle (String.ofList (indent depth)) = String.ofList (indent depth) := by
    refine settle_eq_self fun hmem => ?_
    rw [String.toList_ofList] at hmem
    exact (hplain _ hmem).2 rfl
  have h := addToken_text hx (ofList_indent_ne_empty depth) r
  rwa [hescape, hsettle] at h

theorem addToken_startTag {t : Tag} {tag : ScopedTag} {r : Reading}
    (hns : ∀ n ∈ t.namespaces, IsXmlValue n.uri) (has : ∀ a ∈ t.attributes, IsXmlValue a.value)
    (htag : scopedTag? r.scope t.name.raw t.values = some tag) (isEmpty : Bool) :
    addToken x r (.startTag t.name.raw t.rawAttributes isEmpty) =
      some (if isEmpty then r.add (.element tag [])
        else { r with opened := ⟨t.name.raw, tag, []⟩ :: r.opened }) := by
  have hvalues := Tag.attributeValues_rawAttributes x.inAttribute r hns has
  simp only [addToken, hx, hvalues]
  simp only [Option.bind_eq_bind, Option.bind_some, htag]
  cases isEmpty <;> rfl

end

theorem addToken_endTag (x : Expansion) (o : OpenElement) (r : Reading) :
    addToken x { r with opened := o :: r.opened } (.endTag o.written) =
      some (r.add (.element o.tag o.done.reverse)) := by
  simp [addToken]

theorem addTokens_append (x : Expansion) (ts us : List Token) (r : Reading) :
    addTokens x (ts ++ us) r = (addTokens x ts r).bind (addTokens x us) :=
  List.foldlM_append

theorem addTokens_cons (x : Expansion) (t : Token) (ts : List Token) (r : Reading) :
    addTokens x (t :: ts) r = (addToken x r t).bind (addTokens x ts) := List.foldlM_cons

section
variable {pre uri : String} {x : Expansion}

theorem addTokens_lineTokens (hx : x.inEntity = false) (scope : List Namespace) (depth : Nat)
    (afterText : Bool) (r : Reading) :
    addTokens x (lineTokens depth afterText) r =
      some (r.addAll (Node.scopedAll scope (lineNodes depth afterText))) := by
  cases afterText with
  | true => rfl
  | false =>
    rw [lineTokens, if_neg (by decide), addTokens_cons, addToken_indent hx]
    rfl

/-- An element is added with its tag as it is read and its children as they are added inside. -/
theorem addTokens_element (hx : x.inEntity = false) {t : Tag} {cs : List Node} {depth : Nat}
    (afterText : Bool) {tag : ScopedTag} {children : List ScopedNode} {r : Reading}
    (hns : ∀ n ∈ t.namespaces, IsXmlValue n.uri) (has : ∀ a ∈ t.attributes, IsXmlValue a.value)
    (htag : scopedTag? r.scope t.name.raw t.values = some tag) (hempty : cs = [] → children = [])
    (hcs : ∀ r : Reading, r.scope = tag.scope →
      addTokens x (Node.tokensOf (depth + 1) false cs) r = some (r.addAll children)) :
    addTokens x (Node.tokens depth afterText (.element t cs)) r =
      some (r.addAll (Node.scopedAll tag.scope (lineNodes depth afterText) ++
        [.element tag (children ++ Node.scopedAll tag.scope (closingNodes depth cs))])) := by
  -- the line break comes first and leaves the scope as it is
  have hline := addTokens_lineTokens hx tag.scope depth afterText r
  rw [Reading.addAll_append]
  generalize hbefore : r.addAll (Node.scopedAll tag.scope (lineNodes depth afterText)) = before
    at hline
  have hscope : before.scope = r.scope := by rw [← hbefore, Reading.scope_addAll]
  rw [← hscope] at htag
  have hstart := addToken_startTag hx hns has htag
  cases cs with
  | nil =>
    rw [hempty rfl, Node.tokens, addTokens_append, hline, Option.bind_some, addTokens_cons, hstart]
    rfl
  | cons c cs =>
    -- between the tags the children gather in the open element, which the end tag closes
    let closing := Node.scopedAll tag.scope (closingNodes depth (c :: cs))
    have hinside : addTokens x (Node.tokensOf (depth + 1) false (c :: cs))
        { before with opened := ⟨t.name.raw, tag, []⟩ :: before.opened } =
          some { before with opened := ⟨t.name.raw, tag, children.reverse⟩ :: before.opened } := by
      rw [hcs _ rfl, Reading.addAll_opened, List.append_nil]
    have hclosing : addTokens x (lineTokens depth (endsInText (c :: cs)))
        { before with opened := ⟨t.name.raw, tag, children.reverse⟩ :: before.opened } =
          some { before with
            opened := ⟨t.name.raw, tag, (children ++ closing).reverse⟩ :: before.opened } := by
      rw [addTokens_lineTokens hx tag.scope, Reading.addAll_opened, List.reverse_append]
      rfl
    have hend := addToken_endTag x ⟨t.name.raw, tag, (children ++ closing).reverse⟩ before
    rw [Node.tokens, addTokens_append, hline, Option.bind_some, addTokens_cons, hstart,
      Option.bind_some, addTokens_append, if_neg (by decide), hinside, Option.bind_some,
      addTokens_append, hclosing, Option.bind_some, addTokens_cons, hend, List.reverse_reverse]
    rfl

/-- An element whose tag is read as it was written, in the bindings in scope. -/
theorem scopedAll_reread_element (scope : List Namespace) (depth : Nat) (afterText : Bool) (t : Tag)
    (cs : List Node) :
    Node.scopedAll scope (Node.reread depth afterText (.element t cs)) =
      Node.scopedAll scope (lineNodes depth afterText) ++
        [.element ⟨t.name, scope, t.attributes⟩
          (Node.scopedAll scope (Node.rereadAll (depth + 1) false cs) ++
            Node.scopedAll scope (closingNodes depth cs))] := by
  rw [Node.reread, Node.scopedAll_append, ← Node.scopedAll_append scope (Node.rereadAll _ _ cs)]
  rfl

theorem scopedAll_rereadAll_nil {cs : List Node} (scope : List Namespace) (depth : Nat)
    (h : cs = []) : Node.scopedAll scope (Node.rereadAll depth false cs) = [] := by
  rw [h]
  rfl

def Tag.Inherits (pre uri : String) (t : Tag) : Prop := t.namespaces = [] ∧ t.IsIn pre uri

mutual

theorem addTokens_tokens (hx : x.inEntity = false) (hbind : MayBind pre uri) (depth : Nat)
    (afterText : Bool) (n : Node) (h : n.IsWritable (Tag.Inherits pre uri) afterText) {r : Reading}
    (hr : r.scope = [⟨some pre, uri⟩]) :
    addTokens x (n.tokens depth afterText) r =
      some (r.addAll (Node.scopedAll [⟨some pre, uri⟩] (n.reread depth afterText))) := by
  match n with
  | .text s =>
    rw [Node.tokens, addTokens_cons, addToken_text hx h.2.1]
    rfl
  | .element t cs =>
    obtain ⟨⟨hns, ht⟩, hcs⟩ := h
    have htag : scopedTag? r.scope t.name.raw t.values =
        some ⟨t.name, [⟨some pre, uri⟩], t.attributes⟩ := by
      rw [hr]
      exact ht.scopedTag?_inner hbind hns
    rw [scopedAll_reread_element]
    exact addTokens_element hx afterText (by simp [hns]) ht.values htag
      (scopedAll_rereadAll_nil _ _) fun r hr =>
        addTokens_tokensOf hx hbind (depth + 1) false cs hcs hr

/-- Written nodes are read, with line breaks between them. -/
theorem addTokens_tokensOf (hx : x.inEntity = false) (hbind : MayBind pre uri) (depth : Nat)
    (afterText : Bool) (ns : List Node) (h : Node.AreWritable (Tag.Inherits pre uri) afterText ns)
    {r : Reading} (hr : r.scope = [⟨some pre, uri⟩]) :
    addTokens x (Node.tokensOf depth afterText ns) r =
      some (r.addAll (Node.scopedAll [⟨some pre, uri⟩] (Node.rereadAll depth afterText ns))) := by
  match ns with
  | [] => rfl
  | n :: ns =>
    have hn := addTokens_tokens hx hbind depth afterText n h.1 hr
    have hns := addTokens_tokensOf hx hbind depth n.isText ns h.2
      (r := r.addAll (Node.scopedAll [⟨some pre, uri⟩] (n.reread depth afterText)))
      (by rw [Reading.scope_addAll, hr])
    rw [Node.tokensOf, addTokens_append, hn, Option.bind_some, hns, Node.rereadAll,
      Node.scopedAll_append, Reading.addAll_append]

end

end

def textAfter (afterText : Bool) (ns : List Node) : Bool := ns.foldl (fun _ n => n.isText) afterText

theorem textAfter_append (afterText : Bool) (ms ns : List Node) :
    textAfter afterText (ms ++ ns) = textAfter (textAfter afterText ms) ns := List.foldl_append

theorem endsInText_eq (ns : List Node) : endsInText ns = textAfter false ns := by
  rcases ns.eq_nil_or_concat with rfl | ⟨ms, n, rfl⟩
  · rfl
  · simp [endsInText, textAfter]

theorem Node.AreWritable.append {P : Tag → Prop} {afterText : Bool} {ms ns : List Node}
    (hms : Node.AreWritable P afterText ms) (hns : Node.AreWritable P (textAfter afterText ms) ns) :
    Node.AreWritable P afterText (ms ++ ns) := by
  induction ms generalizing afterText with
  | nil => exact hns
  | cons m ms ih => exact ⟨hms.1, ih hms.2 hns⟩

theorem textAfter_reread (depth : Nat) (a b : Bool) (n : Node) :
    textAfter a (n.reread depth b) = n.isText := by
  cases n with
  | text s => rfl
  | element t cs => cases b <;> rfl

theorem textAfter_rereadAll (depth : Nat) (a b : Bool) (ns : List Node) :
    textAfter a (Node.rereadAll depth b ns) = textAfter a ns := by
  induction ns generalizing a b with
  | nil => rfl
  | cons n ns ih =>
    rw [Node.rereadAll, textAfter_append, textAfter_reread, ih]
    rfl

theorem areWritable_lineNodes (P : Tag → Prop) (depth : Nat) (afterText : Bool) :
    Node.AreWritable P afterText (lineNodes depth afterText) := by
  cases afterText with
  | true => trivial
  | false =>
    refine ⟨⟨rfl, ofList_indent_ne_empty depth, ?_⟩, trivial⟩
    simp [IsXmlText, indent, isXmlChar]

theorem Node.AreWritable.closing {P : Tag → Prop} {depth : Nat} {cs : List Node}
    (h : Node.AreWritable P false (Node.rereadAll (depth + 1) false cs)) :
    Node.AreWritable P false (Node.rereadAll (depth + 1) false cs ++ closingNodes depth cs) := by
  refine h.append ?_
  rw [textAfter_rereadAll, ← endsInText_eq, closingNodes]
  split
  · trivial
  · exact areWritable_lineNodes P depth (endsInText cs)

mutual

theorem areWritable_reread {P : Tag → Prop} (depth : Nat) (afterText : Bool) (n : Node)
    (h : n.IsWritable P afterText) : Node.AreWritable P afterText (n.reread depth afterText) := by
  match n with
  | .text s => exact ⟨⟨h.1, settle_ne_empty h.2.1, IsXmlText.settle h.2.2⟩, trivial⟩
  | .element t cs =>
    have hcs := areWritable_rereadAll (depth + 1) false cs h.2
    exact (areWritable_lineNodes P depth afterText).append ⟨⟨h.1, hcs.closing⟩, trivial⟩

/-- What is read could be written again. -/
theorem areWritable_rereadAll {P : Tag → Prop} (depth : Nat) (afterText : Bool) (ns : List Node)
    (h : Node.AreWritable P afterText ns) :
    Node.AreWritable P afterText (Node.rereadAll depth afterText ns) := by
  match ns with
  | [] => trivial
  | n :: ns =>
    refine (areWritable_reread depth afterText n h.1).append ?_
    rw [textAfter_reread]
    exact areWritable_rereadAll depth n.isText ns h.2

end

theorem appendText_eq_append {s : String} (hs : s ≠ "") {done : List Node}
    (h : textAfter false done = false) : Node.appendText s done = done ++ [.text s] := by
  have hs : s.isEmpty = false := by simpa using hs
  induction done with
  | nil => simp [Node.appendText, hs]
  | cons n done ih =>
    cases done with
    | nil =>
      cases n with
      | text t => cases h
      | element t cs => simp [Node.appendText, hs]
    | cons m done =>
      have ih := ih h
      simp [Node.appendText, hs, ih]

mutual

theorem toTree_scoped {P : Tag → Prop} (hP : ∀ t, P t → t.namespaces = []) (scope : List Namespace)
    (afterText : Bool) (n : Node) (h : n.IsWritable P afterText) :
    ScopedNode.toTree scope (n.scoped scope) = n := by
  match n with
  | .text s => rfl
  | .element t cs =>
    have hcs : ScopedNode.toTrees scope [] (Node.scopedAll scope cs) = [] ++ cs :=
      toTrees_scopedAll hP scope [] cs h.2
    have ht : (⟨t.name, [], t.attributes⟩ : Tag) = t := by rw [← hP t h.1]
    have hscope : scope.filter (! scope.contains ·) = [] := by simp
    rw [Node.scoped, ScopedNode.toTree, hcs, hscope, ht, List.nil_append]

/-- A tree without declarations, in which no text meets another, is copied out as it is. -/
theorem toTrees_scopedAll {P : Tag → Prop} (hP : ∀ t, P t → t.namespaces = [])
    (scope : List Namespace) (done ns : List Node)
    (h : Node.AreWritable P (textAfter false done) ns) :
    ScopedNode.toTrees scope done (Node.scopedAll scope ns) = done ++ ns := by
  match ns with
  | [] => simp [Node.scopedAll, ScopedNode.toTrees]
  | n :: ns =>
    have hnext : textAfter false (done ++ [n]) = n.isText := by rw [textAfter_append]; rfl
    have hns := toTrees_scopedAll hP scope (done ++ [n]) ns (by rw [hnext]; exact h.2)
    rw [List.append_assoc, List.singleton_append] at hns
    cases n with
    | text s =>
      -- texts are joined to a text before them, and this one has none there
      obtain ⟨hbefore, hs, _⟩ := h.1
      rw [← hns, ← appendText_eq_append hs hbefore]
      rfl
    | element t cs =>
      have hn := toTree_scoped hP scope (textAfter false done) (.element t cs) h.1
      rw [Node.scopedAll, Node.scoped, ScopedNode.toTrees, ← Node.scoped, hn, hns]

end

/-- A tree in one vocabulary: its root declares the prefix that all its tags have. -/
structure Element.IsIn (pre uri : String) (e : Element) : Prop where
  tag : e.tag.IsIn pre uri
  namespaces : e.tag.namespaces = [⟨some pre, uri⟩]
  children : Node.AreWritable (Tag.Inherits pre uri) false e.children

theorem Tag.IsIn.isWritable {pre uri : String} {t : Tag} (h : t.IsIn pre uri)
    (hbind : MayBind pre uri) (hns : ∀ n ∈ t.namespaces, n = ⟨some pre, uri⟩) : t.IsWritable where
  name := by
    rw [h.name]
    exact ⟨hbind.name, h.localName⟩
  namespaces n hn := by
    rw [hns n hn]
    exact ⟨hbind.name, hbind.value.isXmlText⟩
  attributes a ha := by
    have hname : a.name.IsWritable := by
      have hlocal := h.attributeNames a ha
      rw [isAttributeName, Bool.and_eq_true] at hlocal
      rw [h.plain a ha]
      exact ⟨rfl, hlocal.1⟩
    exact ⟨hname, (h.values a ha).isXmlText⟩

/-- A written tree is read as it was written, up to its line ends and line breaks. -/
theorem parse?_render {pre uri : String} (hbind : MayBind pre uri) {e : Element}
    (h : e.IsIn pre uri) : Element.parse? e.render = some (e.reread 0) := by
  let scope : List Namespace := [⟨some pre, uri⟩]
  let root : ScopedElement :=
    ⟨⟨e.tag.name, scope, e.tag.attributes⟩, Node.scopedAll scope (e.reread 0).children⟩
  have hdocument : whole? Scanner.document e.render.toList =
      some ([], Node.tokens 0 true e.toNode) :=
    document_render (fun t ht => ht.2.isWritable hbind (by simp [ht.1]))
      (h.tag.isWritable hbind (by simp [h.namespaces])) h.children
  have hread : addTokens (topExpansion []) (Node.tokens 0 true e.toNode) {} =
      some { top := [.element root.tag root.children] } := by
    have huris : ∀ n ∈ e.tag.namespaces, IsXmlValue n.uri := by simp [h.namespaces, hbind.value]
    have hroot : addTokens (topExpansion []) (Node.tokens 0 true (.element e.tag e.children)) {} =
        _ := addTokens_element rfl true huris h.tag.values
      (h.tag.scopedTag?_root hbind h.namespaces) (scopedAll_rereadAll_nil scope 1)
      fun r hr => addTokens_tokensOf rfl hbind 1 false e.children h.children hr
    rw [← Node.scopedAll_append] at hroot
    exact hroot
  have hparse : Document.parse? e.render = some ⟨root⟩ := by
    simp only [Document.parse?, hdocument, Option.bind_eq_bind, Option.bind_some, hread]
    rfl
  have hchildren : ScopedNode.toTrees scope [] (Node.scopedAll scope (e.reread 0).children) =
      (e.reread 0).children :=
    toTrees_scopedAll (fun t ht => ht.1) scope [] (e.reread 0).children
      (areWritable_rereadAll 1 false e.children h.children).closing
  have htag : (⟨e.tag.name, [⟨some pre, uri⟩], e.tag.attributes⟩ : Tag) = e.tag := by
    rw [← h.namespaces]
  rw [Element.parse?, hparse, Option.map_some, Document.tree, Element.ofScoped, hchildren, htag]
  rfl

theorem filterMap_element?_lineNodes (depth : Nat) (afterText : Bool) :
    (lineNodes depth afterText).filterMap Node.element? = [] := by
  cases afterText <;> rfl

/-- The line breaks are no elements. -/
theorem elements_reread (depth : Nat) (e : Element) :
    (e.reread depth).elements = e.elements.map (Element.reread (depth + 1)) := by
  have hall (afterText : Bool) (ns : List Node) :
      (Node.rereadAll (depth + 1) afterText ns).filterMap Node.element? =
        (ns.filterMap Node.element?).map (Element.reread (depth + 1)) := by
    induction ns generalizing afterText with
    | nil => rfl
    | cons n ns ih =>
      rw [Node.rereadAll, List.filterMap_append, ih]
      cases n with
      | text s => rfl
      | element t cs =>
        rw [Node.reread, List.filterMap_append, filterMap_element?_lineNodes]
        rfl
  have hclosing : (closingNodes depth e.children).filterMap Node.element? = [] := by
    rw [closingNodes]
    split
    · rfl
    · exact filterMap_element?_lineNodes depth (endsInText e.children)
  rw [Element.elements, Element.reread, List.filterMap_append, hall, hclosing, List.append_nil]
  rfl

end Schematron.Xml
