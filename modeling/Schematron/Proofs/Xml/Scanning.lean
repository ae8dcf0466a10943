import Schematron.Proofs.Xml.Escaping
import Schematron.Xml.Markup

/-!
# Scanning written tags

Names, attributes and tags in the form in which they are written, and what the scanner makes of
them.
-/
namespace Schematron.Xml
open Schematron.Text Scan Scanner

/-- A name, or a part of one, without a colon. -/
def isNamePart (s : String) : Bool :=
  s.toList.head?.any isNameStart && s.toList.all fun c => isNameChar c && c != ':'

namespace RawName

def written (n : RawName) : List Char :=
  if n.pre.isEmpty then n.localName.toList else n.pre.toList ++ ':' :: n.localName.toList

def IsWritable (n : RawName) : Prop :=
  (n.pre = "" ∨ isNamePart n.pre = true) ∧ isNamePart n.localName = true

end RawName

theorem isNamePart_iff {s : String} : isNamePart s = true ↔ s.toList.head?.any isNameStart = true ∧
    s.toList.all isNameChar = true ∧ ':' ∉ s.toList := by
  have hall : s.toList.all (fun c => isNameChar c && c != ':') = true ↔
      s.toList.all isNameChar = true ∧ ':' ∉ s.toList := by
    simp only [List.all_eq_true, Bool.and_eq_true, bne_iff_ne]
    constructor
    · intro h
      exact ⟨fun c hc => (h c hc).1, fun hc => (h _ hc).2 rfl⟩
    · rintro ⟨h, hcolon⟩ c hc
      refine ⟨h c hc, ?_⟩
      rintro rfl
      exact hcolon hc
  rw [isNamePart, Bool.and_eq_true, hall]

theorem ne_empty_of_isNamePart {s : String} (h : isNamePart s = true) : s ≠ "" := by
  rintro rfl
  exact absurd h (by decide)

theorem all_ne_of_notMem {c : Char} {cs : List Char} (h : c ∉ cs) :
    cs.all (· != c) = true := by
  rw [List.all_eq_true]
  intro d hd
  rw [bne_iff_ne]
  rintro rfl
  exact h hd

namespace RawName
variable {n : RawName}

theorem written_of_pre (h : n.pre ≠ "") :
    n.written = n.pre.toList ++ ':' :: n.localName.toList := by
  simp [written, h]

theorem written_of_empty (h : n.pre = "") : n.written = n.localName.toList := by
  simp [written, h]

/-- A written name starts as a name does. -/
theorem IsWritable.head (h : n.IsWritable) : n.written.head?.any isNameStart = true := by
  obtain ⟨hlocal, _⟩ := isNamePart_iff.1 h.2
  rcases h.1 with hpre | hpre
  · rw [written_of_empty hpre]
    exact hlocal
  · obtain ⟨hhead, _⟩ := isNamePart_iff.1 hpre
    rw [written_of_pre (ne_empty_of_isNamePart hpre), List.head?_append]
    cases hp : n.pre.toList.head? with
    | none => simp [hp] at hhead
    | some c => simpa [hp] using hhead

theorem IsWritable.all (h : n.IsWritable) : n.written.all isNameChar = true := by
  obtain ⟨_, hlocal, _⟩ := isNamePart_iff.1 h.2
  have hcolon : isNameChar ':' = true := by decide
  rcases h.1 with hpre | hpre
  · rw [written_of_empty hpre]
    exact hlocal
  · obtain ⟨_, hchars, _⟩ := isNamePart_iff.1 hpre
    rw [written_of_pre (ne_empty_of_isNamePart hpre), List.all_append, List.all_cons, hchars,
      hcolon, hlocal]
    rfl

theorem IsWritable.ne_nil (h : n.IsWritable) : n.written ≠ [] := by
  intro hnil
  have hhead := h.head
  rw [hnil] at hhead
  cases hhead

end RawName

/-- A written name is read as far as name characters go. -/
theorem rawName_append {n : RawName} (h : n.IsWritable) {rest : List Char}
    (hrest : rest.head?.any isNameChar = false) :
    rawName (n.written ++ rest) = some (n, rest) := by
  obtain ⟨hstart, _, hcolon⟩ := isNamePart_iff.1 h.2
  have hcontains : n.localName.toList.contains ':' = false := by simpa using hcolon
  rw [rawName, bind_run, run_append h.all hrest]
  rcases h.1 with hpre | hpre
  · have hstop : ([] : List Char).head?.any (· != ':') = false := rfl
    have hdrop : n.localName.toList.dropWhile (· != ':') = [] := by
      simpa using (dropWhile_append (all_ne_of_notMem hcolon) hstop).2
    have hn : (⟨"", n.localName⟩ : RawName) = n := by rw [← hpre]
    simp [RawName.written_of_empty hpre, hdrop, hstart, hcolon, hn]
  · obtain ⟨hhead, _, hno⟩ := isNamePart_iff.1 hpre
    have hall : n.pre.toList.head?.all isNameStart = true := by
      cases hp : n.pre.toList.head? <;> simp_all
    have hstop : (':' :: n.localName.toList).head?.any (· != ':') = false := rfl
    obtain ⟨htake, hdrop⟩ := dropWhile_append (all_ne_of_notMem hno) hstop
    simp [RawName.written_of_pre (ne_empty_of_isNamePart hpre), htake, hdrop, hall, hstart, hcolon]

namespace RawAttribute

def written (a : RawAttribute) : List Char :=
  ' ' :: a.name.written ++ '=' :: '"' :: a.value ++ ['"']

structure IsWritable (a : RawAttribute) : Prop where
  name : a.name.IsWritable
  value : a.value.all isQuotable = true

end RawAttribute

theorem isXmlSpace_of_isNameStart {c : Char} (h : isNameStart c = true) : isXmlSpace c = false := by
  cases hspace : isXmlSpace c with
  | false => rfl
  | true =>
    simp only [isXmlSpace, Bool.or_eq_true, beq_iff_eq] at hspace
    rcases hspace with ((rfl | rfl) | rfl) | rfl <;> exact absurd h (by decide)

/-- A name is not preceded by white space that belongs to it. -/
theorem RawName.IsWritable.head_append {n : RawName} (h : n.IsWritable) (rest : List Char) :
    ∃ c cs, n.written ++ rest = c :: cs ∧ isNameStart c = true := by
  have hhead := h.head
  cases hn : n.written with
  | nil => exact absurd hn h.ne_nil
  | cons c cs => exact ⟨c, cs ++ rest, rfl, by simpa [hn] using hhead⟩

theorem spaces1_append {rest : List Char} (h : rest.head?.any isXmlSpace = false) :
    spaces1 (' ' :: rest) = some ((), rest) := by
  have hrun : run1 isXmlSpace ([' '] ++ rest) = some ([' '], rest) :=
    run1_append (by decide) (by decide) h
  rw [spaces1, bind_run]
  change (run1 isXmlSpace ([' '] ++ rest)).bind _ = _
  rw [hrun]
  rfl

theorem spaces_of_head {rest : List Char} (h : rest.head?.any isXmlSpace = false) :
    spaces rest = some ((), rest) := by
  rw [spaces, bind_run, run_nil h]
  rfl

theorem attributePair_append {a : RawAttribute} (h : a.IsWritable) (rest : List Char) :
    (do spaces1; attributePair : Scan RawAttribute) (a.written ++ rest) = some (a, rest) := by
  have hsplit : a.written ++ rest =
      ' ' :: (a.name.written ++ ('=' :: '"' :: (a.value ++ '"' :: rest))) := by
    simp [RawAttribute.written]
  obtain ⟨c, cs, hc, hstart⟩ := h.name.head_append ('=' :: '"' :: (a.value ++ '"' :: rest))
  have hspace : (a.name.written ++ ('=' :: '"' :: (a.value ++ '"' :: rest))).head?.any
      isXmlSpace = false := by
    simp [hc, isXmlSpace_of_isNameStart hstart]
  have hname : rawName (a.name.written ++ ('=' :: '"' :: (a.value ++ '"' :: rest))) =
      some (a.name, '=' :: '"' :: (a.value ++ '"' :: rest)) := rawName_append h.name rfl
  have hall : a.value.all (fun c => isXmlChar c && c != '"' && c != '<') = true := by
    rw [List.all_eq_true]
    intro c hc
    have hquotable := List.all_eq_true.1 h.value c hc
    simp only [isQuotable, Bool.and_eq_true] at hquotable ⊢
    exact hquotable.1
  have hvalue : run (fun c => isXmlChar c && c != '"' && c != '<') (a.value ++ '"' :: rest) =
      some (a.value, '"' :: rest) := run_append hall rfl
  rw [hsplit, bind_run, spaces1_append hspace]
  have hequals (x : List Char) : run isXmlSpace ('=' :: x) = some ([], '=' :: x) := rfl
  have hquote (x : List Char) : run isXmlSpace ('"' :: x) = some ([], '"' :: x) := rfl
  simp [attributePair, hname, equalsSign, spaces, hequals, hquote, char, satisfy, quote, hvalue]

/-- Written attributes are read up to something else than white space. -/
theorem attributes_append {as : List RawAttribute} (h : ∀ a ∈ as, a.IsWritable) {rest : List Char}
    (hrest : rest.head?.any isXmlSpace = false) :
    attributes (as.flatMap RawAttribute.written ++ rest) = some (as, rest) := by
  have hitem : ∀ a ∈ as, a.written ≠ [] ∧ ∀ r,
      (do spaces1; attributePair : Scan RawAttribute) (a.written ++ r) = some (id a, r) :=
    fun a ha => ⟨by simp [RawAttribute.written], attributePair_append (h a ha)⟩
  have hend : (do spaces1; attributePair : Scan RawAttribute) rest = none := by
    have hnone : run1 isXmlSpace rest = none := by
      cases rest with
      | nil => rfl
      | cons c cs =>
        have hc : isXmlSpace c = false := by simpa using hrest
        simp [run1, hc]
    rw [bind_run, spaces1, bind_run, hnone]
    rfl
  have hmany := many_append hitem hend
  rw [List.map_id] at hmany
  exact hmany

def tagEnd (isEmpty : Bool) : List Char := if isEmpty then ['/', '>'] else ['>']

def writtenTag (n : RawName) (as : List RawAttribute) (isEmpty : Bool) : List Char :=
  n.written ++ as.flatMap RawAttribute.written ++ tagEnd isEmpty

/-- A name in a start tag ends at a space or at the end of the tag. -/
theorem head_attributes (as : List RawAttribute) (isEmpty : Bool) (rest : List Char) :
    (as.flatMap RawAttribute.written ++ (tagEnd isEmpty ++ rest)).head?.any isNameChar = false := by
  cases as with
  | nil => cases isEmpty <;> rfl
  | cons a as => rfl

theorem startTagRest_append {n : RawName} {as : List RawAttribute} (hn : n.IsWritable)
    (has : ∀ a ∈ as, a.IsWritable) (isEmpty : Bool) (rest : List Char) :
    startTagRest (writtenTag n as isEmpty ++ rest) = some (.startTag n as isEmpty, rest) := by
  have hsplit : writtenTag n as isEmpty ++ rest =
      n.written ++ (as.flatMap RawAttribute.written ++ (tagEnd isEmpty ++ rest)) := by
    simp [writtenTag]
  have hend : (tagEnd isEmpty ++ rest).head?.any isXmlSpace = false := by
    cases isEmpty <;> rfl
  rw [hsplit, startTagRest, bind_run, rawName_append hn (head_attributes as isEmpty rest),
    Option.bind_some, bind_run, attributes_append has hend, Option.bind_some, bind_run,
    spaces_of_head hend]
  cases isEmpty <;> rfl

theorem endTagRest_append {n : RawName} (hn : n.IsWritable) (rest : List Char) :
    endTagRest (n.written ++ '>' :: rest) = some (.endTag n, rest) := by
  rw [endTagRest, bind_run, rawName_append hn (by rfl)]
  rfl

theorem dropped?_eq_false {c : Char} {cs : List Char} (hc : c ≠ '!') (hc' : c ≠ '?') :
    dropped? ('<' :: c :: cs) = some (false, '<' :: c :: cs) := by
  simp [dropped?, sees, tryWord, after?, hc.symm, hc'.symm]

theorem token?_startTag {n : RawName} {as : List RawAttribute} (hn : n.IsWritable)
    (has : ∀ a ∈ as, a.IsWritable) (isEmpty : Bool) (rest : List Char) :
    token? ('<' :: (writtenTag n as isEmpty ++ rest)) = some (some (.startTag n as isEmpty), rest) := by
  have htag := startTagRest_append hn has isEmpty rest
  obtain ⟨c, cs, hc, hstart⟩ :=
    hn.head_append (as.flatMap RawAttribute.written ++ (tagEnd isEmpty ++ rest))
  have hsplit : writtenTag n as isEmpty ++ rest = c :: cs := by simpa [writtenTag] using hc
  have hne : c ≠ '!' ∧ c ≠ '?' ∧ c ≠ '/' := by
    refine ⟨?_, ?_, ?_⟩ <;> rintro rfl <;> exact absurd hstart (by decide)
  rw [hsplit] at htag ⊢
  simp [token?, dropped?_eq_false hne.1 hne.2.1, tryWord, after?, hne.1.symm, hne.2.2.symm, htag]

theorem token?_endTag {n : RawName} (hn : n.IsWritable) (rest : List Char) :
    token? ('<' :: '/' :: (n.written ++ '>' :: rest)) = some (some (.endTag n), rest) := by
  have hdropped : dropped? ('<' :: '/' :: (n.written ++ '>' :: rest)) =
      some (false, '<' :: '/' :: (n.written ++ '>' :: rest)) :=
    dropped?_eq_false (by decide) (by decide)
  simp [token?, hdropped, tryWord, after?, endTagRest_append hn]

/-- Text up to a tag. -/
theorem token?_text {raw : List Char} (hne : raw ≠ []) (h : raw.all isQuotable = true)
    (rest : List Char) :
    token? (raw ++ '<' :: rest) = some (some (.text raw), '<' :: rest) := by
  have hquotable := List.all_eq_true.1 h
  have hchars : raw.all isXmlChar = true := by
    rw [List.all_eq_true]
    intro c hc
    have hq := hquotable c hc
    simp only [isQuotable, Bool.and_eq_true] at hq
    exact hq.1.1.1
  have hnone {c : Char} (hc : isQuotable c = false) : c ∉ raw := by
    intro hmem
    rw [hquotable c hmem] at hc
    cases hc
  have hrun : run1 (· != '<') (raw ++ '<' :: rest) = some (raw, '<' :: rest) :=
    run1_append hne (all_ne_of_notMem (hnone (by decide))) rfl
  have hsplit : splitBefore "]]>".toList raw = none :=
    splitBefore_eq_none (c := '>') (by decide) (hnone (by decide))
  have hraw : rawText (raw ++ '<' :: rest) = some (.text raw, '<' :: rest) := by
    rw [rawText, bind_run, hrun]
    simp only [Option.bind_some, hchars, hsplit]
    rfl
  cases raw with
  | nil => exact absurd rfl hne
  | cons c cs =>
    have hc : '<' ≠ c := by
      rintro rfl
      exact hnone (by decide) List.mem_cons_self
    rw [List.cons_append] at hraw ⊢
    simp [token?, dropped?, sees, tryWord, after?, hc, hraw]

end Schematron.Xml
