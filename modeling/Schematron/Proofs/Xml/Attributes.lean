import Schematron.Vocabulary

/-!
# Reading attributes back

An edit of an attribute without a namespace is seen by a look-up of that name and by no other.
-/
namespace Schematron.Xml

theorem QName.is_of_ne {q : QName} {uri uri' l l' : String} (h : q.is uri l = true) (hne : l' ≠ l) :
    q.is uri' l' = false := by
  simp only [is, Bool.and_eq_true, beq_iff_eq] at h
  simp [is, h.2, Ne.symm hne]

theorem QName.isPlain_of_ne {q : QName} {l l' : String} (h : q.isPlain l = true) (hne : l' ≠ l) :
    q.isPlain l' = false := by
  simp only [isPlain, Bool.and_eq_true, beq_iff_eq] at h
  simp [isPlain, h.2, Ne.symm hne]

namespace Tag

theorem find?_putAttr (l v l' : String) (as : List Attribute) :
    ((putAttr l v as).find? fun a => a.name.isPlain l').map (·.value) =
      if l' = l then some v else (as.find? fun a => a.name.isPlain l').map (·.value) := by
  induction as with
  | nil =>
    by_cases h : l' = l
    · simp [putAttr, QName.plain, QName.isPlain, h]
    · simp [putAttr, QName.plain, QName.isPlain, h, Ne.symm h]
  | cons a as ih =>
    by_cases ha : a.name.isPlain l = true
    · by_cases h : l' = l
      · subst h
        simp [putAttr, ha]
      · simp [putAttr, ha, h, QName.isPlain_of_ne ha h]
    · cases hb : a.name.isPlain l' with
      | false => simp [putAttr, ha, hb, ih]
      | true =>
        have h : l' ≠ l := by
          rintro rfl
          exact ha hb
        simp [putAttr, ha, hb, h]

/-- An attribute is set where it stands, or else at the end. -/
theorem putAttr_cases (l v : String) (as : List Attribute) :
    (∃ before a after, as = before ++ a :: after ∧ a.name.isPlain l = true ∧
      putAttr l v as = before ++ ⟨a.name, v⟩ :: after) ∨
    (∀ a ∈ as, a.name.isPlain l = false) ∧ putAttr l v as = as ++ [⟨.plain l, v⟩] := by
  induction as with
  | nil => exact .inr ⟨by simp, rfl⟩
  | cons a as ih =>
    cases h : a.name.isPlain l with
    | true => exact .inl ⟨[], a, as, rfl, h, by simp [putAttr, h]⟩
    | false =>
      rcases ih with ⟨before, b, after, rfl, hb, heq⟩ | ⟨hnone, heq⟩
      · exact .inl ⟨a :: before, b, after, rfl, hb, by simp [putAttr, h, heq]⟩
      · exact .inr ⟨List.forall_mem_cons.2 ⟨h, hnone⟩, by simp [putAttr, h, heq]⟩

theorem filter_putAttr (l v : String) (as : List Attribute) :
    (putAttr l v as).filter (! ·.name.isPlain l) = as.filter (! ·.name.isPlain l) := by
  have hplain : (QName.plain l).isPlain l = true := by simp [QName.plain, QName.isPlain]
  rcases putAttr_cases l v as with ⟨before, a, after, rfl, ha, heq⟩ | ⟨_, heq⟩
  · simp [heq, ha]
  · simp [heq, hplain]

theorem attr_setAttr (t : Tag) (l v l' : String) :
    (t.setAttr l v).attr l' = if l' = l then some v else t.attr l' :=
  find?_putAttr l v l' t.attributes

theorem attr_withAttr (t : Tag) (l : String) (v : Option String) (l' : String) :
    (t.withAttr l v).attr l' = if l' = l then v.or (t.attr l') else t.attr l' := by
  cases v with
  | none => simp [withAttr]
  | some v => simp [withAttr, attr_setAttr]

theorem putAttr_putAttr (l v w : String) (as : List Attribute) :
    putAttr l w (putAttr l v as) = putAttr l w as := by
  induction as with
  | nil => simp [putAttr, QName.plain, QName.isPlain]
  | cons a as ih =>
    cases h : a.name.isPlain l with
    | true => simp [putAttr, h]
    | false => simp [putAttr, h, ih]

/-- A look-up in a tag that has lost the attributes of one name. -/
theorem attr_filter_isPlain (t : Tag) (l l' : String) :
    ({ t with attributes := t.attributes.filter fun a => ! a.name.isPlain l } : Tag).attr l' =
      if l' = l then none else t.attr l' := by
  simp only [attr, List.find?_filter]
  by_cases h : l' = l
  · subst h
    simp
  · rw [if_neg h]
    congr 2
    funext a
    cases ha : a.name.isPlain l' with
    | false => simp
    | true => simp [QName.isPlain_of_ne ha (Ne.symm h)]

end Tag

namespace Element

@[simp] theorem attr_ofName (q : QName) (l : String) : (ofName q).attr l = none := rfl

@[simp] theorem attr_withAttr (e : Element) (l : String) (v : Option String) (l' : String) :
    (e.withAttr l v).attr l' = if l' = l then v.or (e.attr l') else e.attr l' :=
  Tag.attr_withAttr e.tag l v l'

theorem firstChild_eq_head? (e : Element) (uri l : String) :
    e.firstChild uri l = (e.childrenNamed uri l).head? :=
  List.head?_filter.symm

@[simp] theorem attr_push (e c : Element) (l : String) : (e.push c).attr l = e.attr l := rfl

end Element

/-- An element without declarations whose attributes are in no namespace. -/
def Node.ofParts (name : QName) (attributes : List (String × String)) (children : List Node) :
    Node :=
  .element ⟨name, [], attributes.map fun a => ⟨.plain a.1, a.2⟩⟩ children

def schNode (localName : String) (attributes : List (String × String)) (children : List Node) :
    Node :=
  .ofParts (.inNamespace schematronUri "sch" localName) attributes children

end Schematron.Xml
