import Mathlib.Data.List.Basic
import Schematron.Proofs.Xml.Scanning
import Schematron.Xml.Serialize

/-!
# Written trees as tokens

A tree is written without markup in its texts, and a text never meets another one. So the scanner
finds the tags of the tree again, its texts, and the line breaks with their indentation as texts of
their own (`content_renderAll`).
-/
namespace Schematron.Xml
open Schematron.Text Scan Scanner

def QName.raw (q : QName) : RawName := ⟨q.namespacePrefix.getD "", q.localName⟩

def QName.IsWritable (q : QName) : Prop :=
  q.namespacePrefix.all isNamePart = true ∧ isNamePart q.localName = true

def Namespace.raw (n : Namespace) : RawAttribute :=
  ⟨n.namespacePrefix.elim ⟨"", "xmlns"⟩ (⟨"xmlns", ·⟩), (escape n.uri).toList⟩

def Attribute.raw (a : Attribute) : RawAttribute := ⟨a.name.raw, (escape a.value).toList⟩

namespace Tag

def rawAttributes (t : Tag) : List RawAttribute :=
  t.namespaces.map Namespace.raw ++ t.attributes.map Attribute.raw

structure IsWritable (t : Tag) : Prop where
  name : t.name.IsWritable
  namespaces : ∀ n ∈ t.namespaces, n.namespacePrefix.all isNamePart = true ∧ IsXmlText n.uri
  attributes : ∀ a ∈ t.attributes, a.name.IsWritable ∧ IsXmlText a.value

end Tag

theorem QName.IsWritable.raw {q : QName} (h : q.IsWritable) : q.raw.IsWritable := by
  refine ⟨?_, h.2⟩
  cases hp : q.namespacePrefix with
  | none => exact .inl (by simp [QName.raw, hp])
  | some p => exact .inr (by simpa [QName.raw, hp] using h.1)

theorem QName.IsWritable.written {q : QName} (h : q.IsWritable) :
    q.raw.written = q.render.toList := by
  cases hp : q.namespacePrefix with
  | none => simp [RawName.written, QName.raw, QName.render, hp]
  | some p =>
    have hne : p ≠ "" := ne_empty_of_isNamePart (by simpa [hp] using h.1)
    have hcolon : ":".toList = [':'] := rfl
    simp [RawName.written, QName.raw, QName.render, hp, hne, hcolon]

theorem Attribute.written_raw {a : Attribute} (h : a.name.IsWritable) :
    a.raw.written = a.render.toList := by
  have hequals : "=\"".toList = ['=', '"'] := rfl
  have hquote : "\"".toList = ['"'] := rfl
  have hspace : " ".toList = [' '] := rfl
  simp [RawAttribute.written, Attribute.raw, Attribute.render, h.written, hequals, hquote, hspace]

theorem Namespace.written_raw (n : Namespace) : n.raw.written = n.render.toList := by
  have hequals : "=\"".toList = ['=', '"'] := rfl
  have hquote : "\"".toList = ['"'] := rfl
  have hspace : " ".toList = [' '] := rfl
  have hxmlns : "xmlns".toList = ['x', 'm', 'l', 'n', 's'] := rfl
  have hcolon : "xmlns:".toList = ['x', 'm', 'l', 'n', 's', ':'] := rfl
  cases hp : n.namespacePrefix <;>
    simp [RawAttribute.written, RawName.written, Namespace.raw, Namespace.render, hp, hequals, hquote,
      hspace, hxmlns, hcolon]

namespace Tag.IsWritable
variable {t : Tag}

theorem written (h : t.IsWritable) (isEmpty : Bool) :
    writtenTag t.name.raw t.rawAttributes isEmpty = t.render.toList ++ tagEnd isEmpty := by
  have hns : (t.namespaces.map Namespace.raw).flatMap RawAttribute.written =
      (String.join (t.namespaces.map (·.render))).toList := by
    rw [String.toList_join, List.flatMap_map, List.flatMap_map]
    exact List.flatMap_congr fun n _ => n.written_raw
  have has : (t.attributes.map Attribute.raw).flatMap RawAttribute.written =
      (String.join (t.attributes.map (·.render))).toList := by
    rw [String.toList_join, List.flatMap_map, List.flatMap_map]
    exact List.flatMap_congr fun a ha => Attribute.written_raw (h.attributes a ha).1
  simp [writtenTag, Tag.rawAttributes, Tag.render, h.name.written, hns, has]

theorem rawAttributes (h : t.IsWritable) : ∀ a ∈ t.rawAttributes, a.IsWritable := by
  intro a ha
  rcases List.mem_append.1 ha with ha | ha
  · obtain ⟨n, hn, rfl⟩ := List.mem_map.1 ha
    obtain ⟨hpre, huri⟩ := h.namespaces n hn
    refine ⟨?_, all_escape huri⟩
    cases hp : n.namespacePrefix with
    | none => exact ⟨.inl (by simp [Namespace.raw, hp]), by simp [Namespace.raw, hp]; decide⟩
    | some p =>
      exact ⟨.inr (by simp [Namespace.raw, hp]; decide), by simpa [Namespace.raw, hp] using hpre⟩
  · obtain ⟨b, hb, rfl⟩ := List.mem_map.1 ha
    obtain ⟨hname, hvalue⟩ := h.attributes b hb
    exact ⟨hname.raw, all_escape hvalue⟩

end Tag.IsWritable

def endsInText (ns : List Node) : Bool := ns.getLast?.any (·.isText)

mutual

/-- Whether a node can be written directly after text or not: all its tags have the property, its
texts are not empty, and no two of them are neighbours. -/
def Node.IsWritable (P : Tag → Prop) (afterText : Bool) : Node → Prop
  | .text s => afterText = false ∧ s ≠ "" ∧ IsXmlText s
  | .element t cs => P t ∧ Node.AreWritable P false cs

def Node.AreWritable (P : Tag → Prop) (afterText : Bool) : List Node → Prop
  | [] => True
  | n :: ns => n.IsWritable P afterText ∧ Node.AreWritable P n.isText ns

end

def indent (depth : Nat) : List Char := '\n' :: List.replicate (2 * depth) ' '

/-- What is scanned before a tag; nothing directly after text. -/
def lineTokens (depth : Nat) (afterText : Bool) : List Token :=
  if afterText then [] else [.text (indent depth)]

mutual

def Node.tokens (depth : Nat) (afterText : Bool) : Node → List Token
  | .text s => [.text (escape s).toList]
  | .element t [] => lineTokens depth afterText ++ [.startTag t.name.raw t.rawAttributes true]
  | .element t (c :: cs) =>
    lineTokens depth afterText ++ .startTag t.name.raw t.rawAttributes false ::
      (Node.tokensOf (depth + 1) false (c :: cs) ++
        (lineTokens depth (endsInText (c :: cs)) ++ [.endTag t.name.raw]))

def Node.tokensOf (depth : Nat) (afterText : Bool) : List Node → List Token
  | [] => []
  | n :: ns => n.tokens depth afterText ++ Node.tokensOf depth n.isText ns

end

theorem toList_lineStart (depth : Nat) (afterText : Bool) :
    (lineStart depth afterText).toList = if afterText then [] else indent depth := by
  cases afterText <;> simp [lineStart, indent]

theorem all_indent (depth : Nat) : (indent depth).all isQuotable = true := by
  simp [indent, isQuotable, isXmlChar]

def prepend (ts : List Token) (p : List Token × List Char) : List Token × List Char :=
  (ts ++ p.1, p.2)

theorem map_prepend_prepend (ts us : List Token) (x : Option (List Token × List Char)) :
    (x.map (prepend us)).map (prepend ts) = x.map (prepend (ts ++ us)) := by
  cases x <;> simp [prepend]

theorem map_prepend_nil (x : Option (List Token × List Char)) : x.map (prepend []) = x := by
  cases x <;> simp [prepend]

/-- What is scanned from a token on, where `rest` follows it. -/
def contentFrom (k : Nat) (rest : List Char) : Token → Option (List Token × List Char)
  | .endTag n =>
    match k with
    | 0 => some ([.endTag n], rest)
    | d + 1 => (content d rest).map (prepend [.endTag n])
  | .startTag n as false => (content (k + 1) rest).map (prepend [.startTag n as false])
  | t => (content k rest).map (prepend [t])

theorem content_of_token {k : Nat} {cs rest : List Char} {t : Token}
    (h : token? cs = some (some t, rest)) (hless : rest.length < cs.length) :
    content k cs = contentFrom k rest t := by
  have hne : cs.isEmpty = false := by
    cases cs with
    | nil => cases hless
    | cons c cs => rfl
  rw [content, hne, h]
  cases t with
  | startTag n as isEmpty => cases isEmpty <;> simp only [hless] <;> rfl
  | endTag n => cases k <;> simp only [hless] <;> rfl
  | text raw => simp only [hless]; rfl
  | characterData cs => simp only [hless]; rfl

section
variable (k : Nat) {n : RawName} {as : List RawAttribute}

theorem content_text {raw : List Char} (hne : raw ≠ []) (h : raw.all isQuotable = true)
    (rest : List Char) : content k (raw ++ '<' :: rest) =
      (content k ('<' :: rest)).map (prepend [.text raw]) := by
  have hless : ('<' :: rest).length < (raw ++ '<' :: rest).length := by
    have := List.length_pos_iff.2 hne
    simp only [List.length_append]
    omega
  exact content_of_token (token?_text hne h rest) hless

theorem content_emptyTag (hn : n.IsWritable) (has : ∀ a ∈ as, a.IsWritable) (rest : List Char) :
    content k ('<' :: (writtenTag n as true ++ rest)) =
      (content k rest).map (prepend [.startTag n as true]) := by
  have hless : rest.length < ('<' :: (writtenTag n as true ++ rest)).length := by
    simp only [List.length_cons, List.length_append]
    omega
  exact content_of_token (token?_startTag hn has true rest) hless

theorem content_startTag (hn : n.IsWritable) (has : ∀ a ∈ as, a.IsWritable) (rest : List Char) :
    content k ('<' :: (writtenTag n as false ++ rest)) =
      (content (k + 1) rest).map (prepend [.startTag n as false]) := by
  have hless : rest.length < ('<' :: (writtenTag n as false ++ rest)).length := by
    simp only [List.length_cons, List.length_append]
    omega
  exact content_of_token (token?_startTag hn has false rest) hless

theorem length_endTag_lt (n : RawName) (rest : List Char) :
    rest.length < ('<' :: '/' :: (n.written ++ '>' :: rest)).length := by
  simp only [List.length_cons, List.length_append]
  omega

theorem content_endTag (hn : n.IsWritable) (rest : List Char) :
    content (k + 1) ('<' :: '/' :: (n.written ++ '>' :: rest)) =
      (content k rest).map (prepend [.endTag n]) :=
  content_of_token (token?_endTag hn rest) (length_endTag_lt n rest)

theorem content_lastTag (hn : n.IsWritable) (rest : List Char) :
    content 0 ('<' :: '/' :: (n.written ++ '>' :: rest)) = some ([.endTag n], rest) :=
  content_of_token (token?_endTag hn rest) (length_endTag_lt n rest)

/-- A line break before a tag is a text of its own. -/
theorem content_lineStart (depth : Nat) (afterText : Bool) (rest : List Char) :
    content k ((lineStart depth afterText).toList ++ '<' :: rest) =
      (content k ('<' :: rest)).map (prepend (lineTokens depth afterText)) := by
  rw [toList_lineStart]
  cases afterText with
  | true => exact (map_prepend_nil _).symm
  | false => exact content_text k (by simp [indent]) (all_indent depth) rest

end

/-- Directly after text there is a tag. -/
theorem head_renderAll {P : Tag → Prop} {depth : Nat} {ns : List Node}
    (h : Node.AreWritable P true ns)
    {rest : List Char} (hrest : ns = [] → ∃ r, rest = '<' :: r) :
    ∃ r, (Node.renderAll depth true ns).toList ++ rest = '<' :: r := by
  match ns with
  | [] =>
    obtain ⟨r, hr⟩ := hrest rfl
    exact ⟨r, by simp [Node.renderAll, hr]⟩
  | .text s :: ns => cases h.1.1
  | .element t [] :: ns =>
    have hopen : "<".toList = ['<'] := rfl
    simp [Node.renderAll, Node.render, lineStart, hopen]
  | .element t (c :: cs) :: ns =>
    have hopen : "<".toList = ['<'] := rfl
    simp [Node.renderAll, Node.render, lineStart, hopen]

theorem escape_ne_nil {s : String} (h : s ≠ "") : (escape s).toList ≠ [] := by
  rw [toList_escape]
  cases hs : s.toList with
  | nil => exact absurd (String.toList_eq_nil_iff.1 hs) h
  | cons c cs =>
    rw [List.flatMap_cons]
    exact List.append_ne_nil_of_left_ne_nil (escapeChar_ne_nil c) _

/-- An element after its opening angle bracket, and what follows it. -/
def elementRest (depth : Nat) (t : Tag) (cs : List Node) (rest : List Char) : List Char :=
  match cs with
  | [] => writtenTag t.name.raw t.rawAttributes true ++ rest
  | c :: cs =>
    writtenTag t.name.raw t.rawAttributes false ++
      ((Node.renderAll (depth + 1) false (c :: cs)).toList ++
        ((lineStart depth (endsInText (c :: cs))).toList ++
          '<' :: '/' :: (t.name.raw.written ++ '>' :: rest)))

theorem render_element {t : Tag} (ht : t.IsWritable) (depth : Nat) (afterText : Bool)
    (cs : List Node) (rest : List Char) :
    (Node.render depth afterText (.element t cs)).toList ++ rest =
      (lineStart depth afterText).toList ++ '<' :: elementRest depth t cs rest := by
  have hopen : "<".toList = ['<'] := rfl
  cases cs with
  | nil =>
    have hclose : "/>".toList = ['/', '>'] := rfl
    simp [Node.render, elementRest, ht.written, tagEnd, hopen, hclose]
  | cons c cs =>
    have hslash : "</".toList = ['<', '/'] := rfl
    have hclose : ">".toList = ['>'] := rfl
    simp [Node.render, elementRest, ht.written, ht.name.written, tagEnd, hopen, hslash, hclose,
      endsInText]

/-- Text is followed by a tag, also where it is the last of its element. -/
theorem head_lineStart {depth : Nat} {afterText : Bool} (rest : List Char)
    (h : afterText = true) : ∃ r, (lineStart depth afterText).toList ++ '<' :: rest = '<' :: r := by
  rw [h]
  exact ⟨_, rfl⟩

section
variable {P : Tag → Prop}

mutual

theorem content_render (hP : ∀ t, P t → t.IsWritable) (k depth : Nat) (afterText : Bool) (n : Node)
    (h : n.IsWritable P afterText) {rest : List Char}
    (hrest : n.isText = true → ∃ r, rest = '<' :: r) :
    content k ((n.render depth afterText).toList ++ rest) =
      (content k rest).map (prepend (n.tokens depth afterText)) := by
  match n with
  | .text s =>
    obtain ⟨r, rfl⟩ := hrest rfl
    obtain ⟨_, hne, hs⟩ := h
    exact content_text k (escape_ne_nil hne) (all_escape hs) r
  | .element t [] =>
    have ht := hP t h.1
    rw [render_element ht, content_lineStart, elementRest,
      content_emptyTag k ht.name.raw ht.rawAttributes, map_prepend_prepend]
    rfl
  | .element t (c :: cs) =>
    have ht := hP t h.1
    rw [render_element ht, content_lineStart, elementRest,
      content_startTag k ht.name.raw ht.rawAttributes,
      content_renderAll hP (k + 1) (depth + 1) false (c :: cs) h.2 (head_lineStart _),
      content_lineStart, content_endTag k ht.name.raw]
    simp only [map_prepend_prepend]
    simp only [Node.tokens, List.singleton_append]

/-- Written nodes are scanned as their tokens, at any depth. -/
theorem content_renderAll (hP : ∀ t, P t → t.IsWritable) (k depth : Nat) (afterText : Bool)
    (ns : List Node) (h : Node.AreWritable P afterText ns) {rest : List Char}
    (hrest : endsInText ns = true → ∃ r, rest = '<' :: r) :
    content k ((Node.renderAll depth afterText ns).toList ++ rest) =
      (content k rest).map (prepend (Node.tokensOf depth afterText ns)) := by
  match ns with
  | [] =>
    simp [Node.renderAll, Node.tokensOf, map_prepend_nil]
  | n :: ns =>
    obtain ⟨hn, hns⟩ := h
    -- a text ends only at a tag: that of the next node or, after the last node, the one in `rest`
    have hhead : n.isText = true →
        ∃ r, (Node.renderAll depth n.isText ns).toList ++ rest = '<' :: r := by
      intro htext
      rw [htext] at hns ⊢
      refine head_renderAll hns ?_
      rintro rfl
      exact hrest htext
    have htail : endsInText ns = true → ∃ r, rest = '<' :: r := by
      intro hends
      apply hrest
      cases ns with
      | nil => cases hends
      | cons m ms => simpa [endsInText, List.getLast?_cons_cons] using hends
    rw [Node.renderAll, String.toList_append, List.append_assoc,
      content_render hP k depth afterText n hn hhead,
      content_renderAll hP k depth n.isText ns hns htail, map_prepend_prepend, Node.tokensOf]

end

theorem tryWord_open (rest : List Char) : tryWord "<" ('<' :: rest) = some (true, rest) :=
  tryWord_append "<" rest

/-- A written root is scanned as its tokens. -/
theorem root_append (hP : ∀ t, P t → t.IsWritable) {t : Tag} {cs : List Node} (ht : t.IsWritable)
    (hcs : Node.AreWritable P false cs) :
    root ('<' :: elementRest 0 t cs []) = some (Node.tokens 0 true (.element t cs), []) := by
  rw [root, bind_run, tryWord_open, Option.bind_some]
  simp only [if_true]
  cases cs with
  | nil =>
    rw [elementRest, bind_run, startTagRest_append ht.name.raw ht.rawAttributes]
    rfl
  | cons c cs =>
    have hcontent : content 0 ((Node.renderAll 1 false (c :: cs)).toList ++
        ((lineStart 0 (endsInText (c :: cs))).toList ++
          '<' :: '/' :: (t.name.raw.written ++ '>' :: []))) =
        some (Node.tokensOf 1 false (c :: cs) ++
          (lineTokens 0 (endsInText (c :: cs)) ++ [.endTag t.name.raw]), []) := by
      rw [content_renderAll hP 0 1 false (c :: cs) hcs (head_lineStart _), content_lineStart,
        content_lastTag ht.name.raw, map_prepend_prepend]
      simp [prepend]
    rw [elementRest, bind_run, startTagRest_append ht.name.raw ht.rawAttributes]
    simp [hcontent, Node.tokens, lineTokens]

/-- White space before a tag is read over, and the tag is left. -/
theorem misc_of_tag {c : Char} {cs line : List Char} (hline : line.all isXmlSpace = true)
    (hc : isNameStart c = true) : misc (line ++ '<' :: c :: cs) = some ((), '<' :: c :: cs) := by
  have hopen : ('<' :: c :: cs).head?.any isXmlSpace = false := rfl
  have hne : c ≠ '!' ∧ c ≠ '?' := by
    constructor <;> rintro rfl <;> exact absurd hc (by decide)
  rw [misc, (dropWhile_append hline hopen).2, dropped?_eq_false hne.1 hne.2]

/-- A written document is scanned as the tokens of its root. -/
theorem document_render (hP : ∀ t, P t → t.IsWritable) {e : Element} (ht : e.tag.IsWritable)
    (hcs : Node.AreWritable P false e.children) :
    whole? document e.render.toList = some ([], Node.tokens 0 true e.toNode) := by
  have hrender : e.render.toList =
      declaration.toList ++ (indent 0 ++ '<' :: elementRest 0 e.tag e.children []) := by
    have helement := render_element ht 0 false e.children []
    rw [List.append_nil, toList_lineStart] at helement
    rw [Element.render, String.toList_append, Element.toNode, helement]
    rfl
  obtain ⟨c, cs, hrest, hc⟩ : ∃ c cs, elementRest 0 e.tag e.children [] = c :: cs ∧
      isNameStart c = true := by
    cases e.children <;>
      simpa [elementRest, writtenTag] using ht.name.raw.head_append _
  have hroot := root_append hP ht hcs
  rw [hrest] at hrender hroot
  have hbom (rest : List Char) : tryWord "\uFEFF" (declaration.toList ++ rest) =
      some (false, declaration.toList ++ rest) := rfl
  have hsees (rest : List Char) : sees "<?xml " (declaration.toList ++ rest) =
      some (true, declaration.toList ++ rest) := rfl
  have hline : misc (indent 0 ++ '<' :: c :: cs) = some ((), '<' :: c :: cs) :=
    misc_of_tag (by decide) hc
  have hnoLine : ([] : List Char).all isXmlSpace = true := rfl
  have htag : misc ('<' :: c :: cs) = some ((), '<' :: c :: cs) := misc_of_tag hnoLine hc
  have hdoctype : tryWord "<!DOCTYPE" ('<' :: c :: cs) = some (false, '<' :: c :: cs) := by
    have hne : '!' ≠ c := by
      rintro rfl
      exact absurd hc (by decide)
    exact tryWord_eq_false (by simp [after?, hne])
  have hword (rest : List Char) : word "<?xml" (declaration.toList ++ rest) =
      some ((), declaration.toList.drop 5 ++ rest) := rfl
  have hdeclaration (rest : List Char) : declarationRest (declaration.toList.drop 5 ++ rest) =
      some ((), rest) := rfl
  have hend : misc [] = some ((), []) := by
    rw [misc]
    rfl
  rw [whole?, hrender, document]
  simp [hbom, hsees, hword, hdeclaration, hline, hdoctype, htag, hroot, hend, Element.toNode]

end

end Schematron.Xml
