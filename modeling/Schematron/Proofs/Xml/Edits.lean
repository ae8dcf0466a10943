import Schematron.Proofs.Xml.WellFormed

/-!
# Edits of a tree

A tree is edited at one of its elements; what is around that element stays as it is
(`Element.editAt_eq_some`). Whatever edits a tree comes from, and whatever documents, all its
elements are well-formed, and an edit of an attribute without a namespace is one of that attribute
alone (`Element.IsBuilt.wellFormed_and_local`).
-/
namespace Schematron.Xml

inductive Edit where
  | setAttr (localName value : String)
  | withAttr (localName : String) (value : Option String)
  | removeAttr (localName : String)
  | declare (pre : Option String) (uri : String)
  | push (child : Element)
  | pushText (s : String)

namespace Edit

def apply (x : Edit) (e : Element) : Element :=
  match x with
  | .setAttr l v => e.setAttr l v
  | .withAttr l v => e.withAttr l v
  | .removeAttr l => e.removeAttr l
  | .declare p uri => e.declare p uri
  | .push child => e.push child
  | .pushText s => e.pushText s

/-- The attribute that an edit sets or removes, with the value that it has then. -/
def assigned? : Edit → Option (String × Option String)
  | .setAttr l v => some (l, some v)
  | .withAttr l v => v.map fun v => (l, some v)
  | .removeAttr l => some (l, none)
  | .declare .. | .push _ | .pushText _ => none

/-- An edit keeps the element that it changes well-formed. -/
theorem isWellFormed_apply (x : Edit) {e : Element} (h : e.IsWellFormed) :
    (x.apply e).IsWellFormed := by
  have hset (l v : String) : (e.setAttr l v).IsWellFormed :=
    ⟨Tag.nodup_expanded_putAttr h.attributes l v, h.prefixes, h.texts⟩
  cases x with
  | setAttr l v => exact hset l v
  | withAttr l v =>
    cases v with
    | none => exact h
    | some v => exact hset l v
  | removeAttr l =>
    exact ⟨h.attributes.sublist (List.eraseP_sublist.map _), h.prefixes, h.texts⟩
  | declare p uri => exact ⟨h.attributes, Tag.nodup_prefixes_putNamespace h.prefixes _, h.texts⟩
  | push child => exact ⟨h.attributes, h.prefixes, h.texts.concat (by simp [Element.toNode]) fun _ => rfl⟩
  | pushText s => exact ⟨h.attributes, h.prefixes, h.texts.appendText s⟩

/-- An edit does not declare a prefix twice, and neither the default namespace. -/
theorem declaresOnce_apply (x : Edit) {e : Element} (h : e.DeclaresOnce) :
    (x.apply e).DeclaresOnce := by
  cases x with
  | withAttr l v => cases v <;> exact h
  | declare p uri => exact Tag.nodup_putNamespace h _
  | _ => exact h

end Edit

/-- An element that differs from another one at most by one attribute without a namespace, which has
the value, or is absent if there is none. -/
structure Element.IsAssigned (l : String) (value : Option String) (e e' : Element) : Prop where
  attr : e'.attr l = value
  /-- The other attributes keep their values and their order. -/
  others : e'.tag.attributes.filter (! ·.name.isPlain l) =
    e.tag.attributes.filter (! ·.name.isPlain l)
  name : e'.name = e.name
  namespaces : e'.tag.namespaces = e.tag.namespaces
  children : e'.children = e.children

theorem Element.isAssigned_setAttr (e : Element) (l v : String) :
    e.IsAssigned l (some v) (e.setAttr l v) where
  attr := by simp [Element.attr, Element.setAttr, Tag.attr_setAttr]
  others := Tag.filter_putAttr l v e.tag.attributes
  name := rfl
  namespaces := rfl
  children := rfl

theorem Element.isAssigned_removeAttr {e : Element} (h : e.IsWellFormed) (l : String) :
    e.IsAssigned l none (e.removeAttr l) where
  attr := by
    have hlost := Tag.attr_filter_isPlain e.tag l l
    rw [← Tag.dropAttr_eq_filter h.attributes l, if_pos rfl] at hlost
    exact hlost
  others := by
    have hdropped := Tag.dropAttr_eq_filter h.attributes l
    simp only [Element.removeAttr, Tag.removeAttr, hdropped, List.filter_filter, Bool.and_self]
  name := rfl
  namespaces := rfl
  children := rfl

/-- An edit assigns one attribute or none. -/
theorem Edit.attributes_apply (x : Edit) {e : Element} (h : e.IsWellFormed) :
    match x.assigned? with
    | some (l, value) => e.IsAssigned l value (x.apply e)
    | none => (x.apply e).tag.attributes = e.tag.attributes := by
  cases x with
  | setAttr l v => exact e.isAssigned_setAttr l v
  | withAttr l v =>
    cases v with
    | none => rfl
    | some v => exact e.isAssigned_setAttr l v
  | removeAttr l => exact Element.isAssigned_removeAttr h l
  | declare p uri => rfl
  | push child => rfl
  | pushText s => rfl

/-- What is around an element in a tree. -/
inductive Surrounding where
  | root
  | inside (tag : Tag) (before : List Node) (inner : Surrounding) (after : List Node)

namespace Surrounding

def fill : Surrounding → Element → Element
  | .root, e => e
  | .inside t before k after, e => ⟨t, before ++ (k.fill e).toNode :: after⟩

def path : Surrounding → List Nat
  | .root => []
  | .inside _ before k _ => (before.filterMap Node.element?).length :: k.path

end Surrounding

theorem Element.descendants_eq (t : Tag) (cs : List Node) :
    (⟨t, cs⟩ : Element).descendants = ⟨t, cs⟩ :: Node.elementsOf cs := rfl

theorem Element.elementsOf_around (before after : List Node) (e : Element) :
    Node.elementsOf (before ++ e.toNode :: after) =
      Node.elementsOf before ++ (e.descendants ++ Node.elementsOf after) := by
  rw [elementsOf_append]
  rfl

/-- What holds of all elements, whatever child elements they have, holds again if it holds of what is
put in a place. -/
theorem Surrounding.forall_descendants_fill {P : Element → Prop}
    (hP : ∀ t before after (x y : Element),
      P ⟨t, before ++ x.toNode :: after⟩ → P ⟨t, before ++ y.toNode :: after⟩)
    {k : Surrounding} {d d' : Element} (h : ∀ x ∈ (k.fill d).descendants, P x)
    (hd : (∀ x ∈ d.descendants, P x) → ∀ x ∈ d'.descendants, P x) :
    ∀ x ∈ (k.fill d').descendants, P x := by
  induction k with
  | root => exact hd h
  | inside t before k after ih =>
    simp only [fill, Element.descendants_eq, Element.elementsOf_around, List.forall_mem_cons,
      List.forall_mem_append] at h ⊢
    obtain ⟨htag, hbefore, hinner, hafter⟩ := h
    exact ⟨hP t before after _ _ htag, hbefore, ih hinner, hafter⟩

theorem Surrounding.mem_descendants_fill (k : Surrounding) (d : Element) :
    d ∈ (k.fill d).descendants := by
  induction k with
  | root => exact List.mem_cons_self
  | inside t before k after ih =>
    rw [fill, Element.descendants_eq, Element.elementsOf_around]
    exact List.mem_cons_of_mem _ (List.mem_append_right _ (List.mem_append_left _ ih))

/-- A child element is altered where as many child elements stand before it as its index says. -/
theorem Element.alterChild_eq_some {α : Type} {f : Element → Option (α × Element)} {i : Nat}
    {ns ns' : List Node} {a : α} : alterChild f i ns = some (a, ns') ↔
      ∃ before x y after, (before.filterMap Node.element?).length = i ∧
        ns = before ++ x.toNode :: after ∧ f x = some (a, y) ∧
        ns' = before ++ y.toNode :: after := by
  induction ns generalizing i ns' with
  | nil => simp [alterChild]
  | cons n ns ih =>
    cases n with
    | text s =>
      rw [alterChild, Option.map_eq_some_iff]
      constructor
      · rintro ⟨⟨b, ms⟩, h, heq⟩
        cases heq
        obtain ⟨before, x, y, after, hi, rfl, hx, rfl⟩ := ih.1 h
        exact ⟨.text s :: before, x, y, after, hi, rfl, hx, rfl⟩
      · rintro ⟨before, x, y, after, hi, hns, hx, rfl⟩
        cases before with
        | nil => cases hns
        | cons m before =>
          cases hns
          exact ⟨(a, before ++ y.toNode :: after), ih.2 ⟨before, x, y, after, hi, rfl, hx, rfl⟩, rfl⟩
    | element t cs =>
      cases i with
      | zero =>
        rw [alterChild, Option.map_eq_some_iff]
        constructor
        · rintro ⟨⟨b, y⟩, hx, heq⟩
          cases heq
          exact ⟨[], ⟨t, cs⟩, y, ns, rfl, rfl, hx, rfl⟩
        · rintro ⟨before, x, y, after, hi, hns, hx, rfl⟩
          cases before with
          | nil =>
            cases hns
            exact ⟨(a, y), hx, rfl⟩
          | cons m before =>
            cases hns
            cases hi
      | succ i =>
        rw [alterChild, Option.map_eq_some_iff]
        · constructor
          · rintro ⟨⟨b, ms⟩, h, heq⟩
            cases heq
            obtain ⟨before, x, y, after, hi, rfl, hx, rfl⟩ := ih.1 h
            exact ⟨.element t cs :: before, x, y, after, congrArg (· + 1) hi, rfl, hx, rfl⟩
          · rintro ⟨before, x, y, after, hi, hns, hx, rfl⟩
            cases before with
            | nil => cases hi
            | cons m before =>
              cases hns
              exact ⟨(a, before ++ y.toNode :: after),
                ih.2 ⟨before, x, y, after, Nat.succ.inj hi, rfl, hx, rfl⟩, rfl⟩
        · simp

theorem Element.alterAt_eq_some {α : Type} {f : Element → α × Element} {path : List Nat}
    {e e' : Element} {a : α} : e.alterAt f path = some (a, e') ↔
      ∃ k : Surrounding, ∃ d, k.path = path ∧ k.fill d = e ∧ (f d).1 = a ∧ k.fill (f d).2 = e' := by
  induction path generalizing e e' with
  | nil =>
    rw [alterAt, Option.some.injEq]
    constructor
    · intro h
      exact ⟨.root, e, rfl, rfl, congrArg Prod.fst h, congrArg Prod.snd h⟩
    · rintro ⟨k, d, hpath, rfl, rfl, rfl⟩
      cases k with
      | root => rfl
      | inside t before k after => cases hpath
  | cons i path ih =>
    rw [alterAt, Option.map_eq_some_iff]
    constructor
    · rintro ⟨⟨b, cs⟩, h, heq⟩
      cases heq
      obtain ⟨before, x, y, after, hi, hcs, hx, rfl⟩ := alterChild_eq_some.1 h
      obtain ⟨k, d, hpath, rfl, rfl, rfl⟩ := ih.1 hx
      refine ⟨.inside e.tag before k after, d, ?_, ?_, rfl, rfl⟩
      · rw [Surrounding.path, hi, hpath]
      · rw [Surrounding.fill, ← hcs]
    · rintro ⟨k, d, hpath, rfl, rfl, rfl⟩
      cases k with
      | root => cases hpath
      | inside t before k after =>
        cases hpath
        refine ⟨((f d).1, before ++ (k.fill (f d).2).toNode :: after), alterChild_eq_some.2 ?_, rfl⟩
        exact ⟨before, k.fill d, k.fill (f d).2, after, rfl, rfl, ih.2 ⟨k, d, rfl, rfl, rfl, rfl⟩, rfl⟩

def Element.editAt (e : Element) (x : Edit) (path : List Nat) : Option Element :=
  (e.alterAt (fun d => ((), x.apply d)) path).map (·.2)

/-- An edit changes one element and nothing around it. -/
theorem Element.editAt_eq_some {e e' : Element} {x : Edit} {path : List Nat} :
    e.editAt x path = some e' ↔
      ∃ k : Surrounding, ∃ d, k.path = path ∧ k.fill d = e ∧ k.fill (x.apply d) = e' := by
  have hpair : e.editAt x path = some e' ↔
      e.alterAt (fun d => ((), x.apply d)) path = some ((), e') := by
    rw [editAt, Option.map_eq_some_iff]
    exact ⟨fun ⟨⟨_, _⟩, h, heq⟩ => heq ▸ h, fun h => ⟨((), e'), h, rfl⟩⟩
  rw [hpair, alterAt_eq_some]
  simp

/-- A tree that is read from a document or starts as an element without content, and is edited then
at any of its elements; what is put into it is such a tree. What is read has the property `R`. -/
inductive Element.IsBuilt (R : Element → Prop) : Element → Prop where
  | read {text : String} {e : Element} (h : Element.parse? text = some e) (hR : R e) : IsBuilt R e
  | new (name : QName) : IsBuilt R (.ofName name)
  | edit {e e' : Element} {x : Edit} {path : List Nat} (he : IsBuilt R e)
      (hchild : ∀ child, x = .push child → IsBuilt R child) (h : e.editAt x path = some e') :
      IsBuilt R e'

/-- What an edit leaves below an element: what was there, and the child that it may add. -/
theorem Edit.forall_elementsOf_apply {P : Element → Prop} (x : Edit) {e : Element}
    (he : ∀ d ∈ Node.elementsOf e.children, P d)
    (hchild : ∀ child, x = .push child → ∀ d ∈ child.descendants, P d) :
    ∀ d ∈ Node.elementsOf (x.apply e).children, P d := by
  cases x with
  | withAttr l v => cases v <;> exact he
  | push child =>
    simp only [apply, Element.push, Element.elementsOf_around, Node.elementsOf, List.append_nil,
      List.forall_mem_append]
    exact ⟨he, hchild child rfl⟩
  | pushText s =>
    simp only [apply, Element.pushText, elementsOf_appendText]
    exact he
  | _ => exact he

/-- What every edit keeps of the element that it changes holds of all elements of a tree that is
built, if it holds where the tree starts. -/
theorem Element.IsBuilt.forall_descendants {P R : Element → Prop}
    (hread : ∀ text e, Element.parse? text = some e → R e → ∀ d ∈ e.descendants, P d)
    (hnew : ∀ name, P (.ofName name)) (hedit : ∀ (x : Edit) d, P d → P (x.apply d))
    (hP : ∀ t before after (x y : Element),
      P ⟨t, before ++ x.toNode :: after⟩ → P ⟨t, before ++ y.toNode :: after⟩)
    {e : Element} (h : e.IsBuilt R) : ∀ d ∈ e.descendants, P d := by
  induction h with
  | read h hR => exact hread _ _ h hR
  | new name =>
    rw [Element.ofName, Element.descendants_eq, List.forall_mem_cons]
    exact ⟨hnew name, by simp [Node.elementsOf]⟩
  | edit _ _ h ih ihchild =>
    obtain ⟨k, d, _, rfl, rfl⟩ := Element.editAt_eq_some.1 h
    refine Surrounding.forall_descendants_fill hP ih fun hd => ?_
    rw [Element.descendants_eq, List.forall_mem_cons] at hd ⊢
    exact ⟨hedit _ d hd.1, Edit.forall_elementsOf_apply _ hd.2 ihchild⟩

theorem Element.IsBuilt.isWellFormed {R : Element → Prop} {e : Element} (h : e.IsBuilt R) :
    ∀ d ∈ e.descendants, d.IsWellFormed := by
  refine h.forall_descendants (fun text e he _ => isWellFormed_parse? he) (fun name => ?_)
    (fun x d hd => x.isWellFormed_apply hd) fun t before after x y h => ?_
  · exact ⟨List.nodup_nil, List.nodup_nil, Node.textsApart_nil⟩
  · exact ⟨h.attributes, h.prefixes, h.texts.replace y⟩

theorem Element.IsBuilt.declaresOnce {R : Element → Prop} {e : Element} (h : e.IsBuilt R)
    (hR : ∀ r, R r → ∀ d ∈ r.descendants, d.defaults ≤ 1) :
    ∀ d ∈ e.descendants, d.DeclaresOnce := by
  refine h.forall_descendants (fun text r hread hr d hd => ?_) (fun name => List.nodup_nil)
    (fun x d hd => x.declaresOnce_apply hd) fun t before after x y h => h
  exact d.declaresOnce_iff.2 ⟨(isWellFormed_parse? hread d hd).prefixes, hR r hr d hd⟩

/-- In a tree that is built, no element has two attributes of one expanded name or two declarations
of one prefix, an empty text or two texts side by side; nor does one declare the default namespace
twice, if no document does. An edit changes one element and nothing around it, and of its
attributes at most the one that it names. -/
theorem Element.IsBuilt.wellFormed_and_local {R : Element → Prop} {e : Element} (h : e.IsBuilt R) :
    (∀ d ∈ e.descendants, d.IsWellFormed) ∧
    ((∀ r, R r → ∀ d ∈ r.descendants, d.defaults ≤ 1) →
      ∀ d ∈ e.descendants, d.DeclaresOnce) ∧
    ∀ x path e', e.editAt x path = some e' → ∃ k : Surrounding, ∃ d,
      k.path = path ∧ k.fill d = e ∧ k.fill (x.apply d) = e' ∧
      (x.assigned? = none → (x.apply d).tag.attributes = d.tag.attributes) ∧
      ∀ l value, x.assigned? = some (l, value) → d.IsAssigned l value (x.apply d) := by
  refine ⟨h.isWellFormed, h.declaresOnce, fun x path e' hedit => ?_⟩
  obtain ⟨k, d, hpath, rfl, hfill⟩ := Element.editAt_eq_some.1 hedit
  have hattributes := x.attributes_apply (h.isWellFormed d (k.mem_descendants_fill d))
  refine ⟨k, d, hpath, rfl, hfill, fun hnone => ?_, fun l value hsome => ?_⟩
  · rwa [hnone] at hattributes
  · rwa [hsome] at hattributes

/-- Two attributes with one local part, and a child element between texts. -/
def twofoldText : String :=
  "<a xmlns='urn:d' xmlns:p='urn:u' p:x='1' x='2' y='3'>s<b/>t</a>"

/-- The tree of that document, with a copy of itself in its child element and more text. -/
def twofoldTree? : Option Element := do
  let e ← Element.parse? twofoldText
  let e ← e.editAt (.push e) [0]
  e.editAt (.pushText "u") []

theorem isBuilt_twofold {e : Element} (h : twofoldTree? = some e) :
    e.IsBuilt fun r => ∀ d ∈ r.descendants, d.defaults ≤ 1 := by
  have hall : ((Element.parse? twofoldText).all fun r =>
      decide (∀ d ∈ r.descendants, d.defaults ≤ 1)) = true := by decide +kernel
  simp only [twofoldTree?, Option.bind_eq_bind, Option.bind_eq_some_iff] at h
  obtain ⟨r, hr, r', hr', h⟩ := h
  have hread : r.IsBuilt fun r => ∀ d ∈ r.descendants, d.defaults ≤ 1 := by
    refine .read hr ?_
    rw [hr, Option.all_some] at hall
    exact of_decide_eq_true hall
  refine .edit (.edit hread (fun child hchild => ?_) hr') (by simp) h
  cases hchild
  exact hread

/-- The copy loses its attribute `x` without a namespace, and nothing else. -/
theorem Element.IsBuilt.wellFormed_and_local_twofold : ∃ e e', twofoldTree? = some e ∧
    e.editAt (.removeAttr "x") [0, 0] = some e' ∧
    (∀ d ∈ e.descendants, d.IsWellFormed ∧ d.DeclaresOnce) ∧
    (∃ k : Surrounding, ∃ d, k.path = [0, 0] ∧ k.fill d = e ∧ k.fill (d.removeAttr "x") = e' ∧
      d.IsAssigned "x" none (d.removeAttr "x")) ∧
    e'.descendants.map (fun d => d.tag.attributes.map Attribute.content) =
      [[((some "urn:u", "x"), "1"), ((none, "x"), "2"), ((none, "y"), "3")], [],
        [((some "urn:u", "x"), "1"), ((none, "y"), "3")], []] := by
  have hafter : ((twofoldTree?.bind fun e => e.editAt (.removeAttr "x") [0, 0]).any fun e' => decide
      (e'.descendants.map (fun d => d.tag.attributes.map Attribute.content) =
        [[((some "urn:u", "x"), "1"), ((none, "x"), "2"), ((none, "y"), "3")], [],
          [((some "urn:u", "x"), "1"), ((none, "y"), "3")], []])) = true := by decide +kernel
  obtain ⟨e', he', hattributes⟩ := (Option.any_eq_true _ _).1 hafter
  obtain ⟨e, he, hedit⟩ := Option.bind_eq_some_iff.1 he'
  obtain ⟨hwellFormed, hdeclares, hlocal⟩ := (isBuilt_twofold he).wellFormed_and_local
  obtain ⟨k, d, hpath, hfill, hfill', _, hassigned⟩ := hlocal (.removeAttr "x") [0, 0] e' hedit
  have honce := hdeclares fun r hr => hr
  exact ⟨e, e', he, hedit, fun d hd => ⟨hwellFormed d hd, honce d hd⟩,
    ⟨k, d, hpath, hfill, hfill', hassigned "x" none rfl⟩, of_decide_eq_true hattributes⟩

/-- An attribute in a namespace, with the local part of a declaration. -/
def disguisedText : String := "<a xmlns='urn:u' xmlns:p='urn:v' p:xmlns='urn:w'/>"

/-- Not every tree declares the default namespace once in an element: an attribute is taken for a
second declaration. -/
theorem not_forall_isBuilt_declaresOnce :
    ¬ ∀ e : Element, e.IsBuilt (fun _ => True) → ∀ d ∈ e.descendants, d.DeclaresOnce := by
  intro h
  have htwice : ((Element.parse? disguisedText).any fun e => decide
      (e.tag.namespaces = [⟨none, "urn:u"⟩, ⟨some "p", "urn:v"⟩, ⟨none, "urn:w"⟩])) = true := by
    decide +kernel
  obtain ⟨e, he, hnamespaces⟩ := (Option.any_eq_true _ _).1 htwice
  have honce := h e (.read he trivial) e List.mem_cons_self
  rw [Element.DeclaresOnce, of_decide_eq_true hnamespaces] at honce
  revert honce
  decide

end Schematron.Xml
