import Schematron.Proofs.Xml.Written
import Schematron.Xml.Reference

/-!
# What scanning finds

Whatever text is scanned, the names in its tags can be written again, and its texts hold only
characters that a document may contain.
-/
namespace Schematron.Xml
open Schematron.Text Scan Scanner

theorem isNamePart_ofList {cs : List Char} (hhead : cs.head?.any isNameStart = true)
    (hall : cs.all isNameChar = true) (hcolon : ':' ∉ cs) : isNamePart (String.ofList cs) = true :=
  isNamePart_iff.2 (by simpa using ⟨hhead, by simpa using hall, hcolon⟩)

/-- A scanned name can be written. -/
theorem yields_rawName : rawName.Yields RawName.IsWritable := by
  refine (yields_run _).bind fun w hall => ?_
  have hsplit : w.takeWhile (· != ':') ++ w.dropWhile (· != ':') = w :=
    List.takeWhile_append_dropWhile
  have hbefore : ':' ∉ w.takeWhile (· != ':') := by
    intro hmem
    simpa using List.all_eq_true.1 List.all_takeWhile _ hmem
  cases hdrop : w.dropWhile (· != ':') with
  | nil =>
    -- there is no colon, so all of it is the local part
    rw [hdrop, List.append_nil] at hsplit
    rw [hsplit] at hbefore
    refine yields_ite (fun _ => yields_fail) fun _ =>
      yields_ite (fun hhead => ?_) fun _ => yields_fail
    rw [Bool.and_eq_true] at hhead
    exact yields_pure ⟨.inl rfl, isNamePart_ofList hhead.2 hall hbefore⟩
  | cons c after =>
    rw [← hsplit, hdrop, List.all_append, List.all_cons, Bool.and_eq_true, Bool.and_eq_true] at hall
    refine yields_ite (fun _ => yields_fail) fun hcolon =>
      yields_ite (fun hhead => ?_) fun _ => yields_fail
    rw [Bool.and_eq_true] at hhead
    refine yields_pure ⟨?_, isNamePart_ofList hhead.2 hall.2.2 (by simpa using hcolon)⟩
    cases hpre : w.takeWhile (· != ':') with
    | nil => exact .inl rfl
    | cons d ds =>
      rw [hpre] at hhead hall hbefore
      exact .inr (isNamePart_ofList (by simpa using hhead.1) hall.1 hbefore)

def Token.IsScanned : Token → Prop
  | .startTag n as _ => n.IsWritable ∧ ∀ a ∈ as, a.name.IsWritable
  | .endTag _ => True
  | .text raw => raw.all isXmlChar = true
  | .characterData cs => cs.all isXmlChar = true

theorem yields_attributePair : attributePair.Yields (·.name.IsWritable) := by
  refine yields_rawName.bind fun n hn => ?_
  exact yields_bind fun _ => yields_bind fun _ => yields_bind fun _ => yields_bind fun _ =>
    yields_pure hn

theorem yields_attributes : attributes.Yields fun as => ∀ a ∈ as, a.name.IsWritable :=
  yields_many (yields_bind fun _ => yields_attributePair)

theorem yields_startTagRest : startTagRest.Yields Token.IsScanned := by
  refine yields_rawName.bind fun n hn => yields_attributes.bind fun as has => ?_
  refine yields_bind fun _ => yields_bind fun _ => yields_ite (fun _ => ?_) fun _ => ?_
  · exact yields_pure ⟨hn, has⟩
  · exact yields_bind fun _ => yields_pure ⟨hn, has⟩

theorem yields_endTagRest : endTagRest.Yields Token.IsScanned :=
  yields_bind fun _ => yields_bind fun _ => yields_bind fun _ => yields_pure trivial

theorem yields_charsThrough (w : String) :
    (charsThrough w).Yields fun cs => cs.all isXmlChar = true :=
  yields_bind fun _ => yields_ite (fun hall => yields_pure hall) fun _ => yields_fail

theorem yields_rawText : rawText.Yields Token.IsScanned := by
  refine yields_bind fun cs => yields_ite (fun hall => ?_) fun _ => yields_fail
  rw [Bool.and_eq_true] at hall
  exact yields_pure hall.1

theorem yields_token? : token?.Yields fun t => ∀ t' ∈ t, t'.IsScanned := by
  have hsome {x : Scan Token} (hx : x.Yields Token.IsScanned) :
      (do return some (← x) : Scan (Option Token)).Yields fun t => ∀ t' ∈ t, t'.IsScanned :=
    hx.bind fun t ht => yields_pure (by simpa using ht)
  refine yields_bind fun _ => yields_ite (fun _ => yields_pure (by simp)) fun _ => ?_
  refine yields_bind fun _ => yields_ite (fun _ => ?_) fun _ => ?_
  · exact (yields_charsThrough _).bind fun cs hcs => yields_pure fun t' ht' => by
      cases ht'
      exact hcs
  refine yields_bind fun _ => yields_ite (fun _ => hsome yields_endTagRest) fun _ => ?_
  exact yields_bind fun _ => yields_ite (fun _ => hsome yields_startTagRest) fun _ =>
    hsome yields_rawText

theorem isScanned_contentFrom {depth : Nat} {rest r : List Char} {t : Token} {ts : List Token}
    (ht : t.IsScanned)
    (hcontent : ∀ k ts r, content k rest = some (ts, r) → ∀ t ∈ ts, t.IsScanned)
    (h : contentFrom depth rest t = some (ts, r)) : ∀ t ∈ ts, t.IsScanned := by
  have hprepend (k : Nat) (h : (content k rest).map (prepend [t]) = some (ts, r)) :
      ∀ t ∈ ts, t.IsScanned := by
    obtain ⟨p, hp, heq⟩ := Option.map_eq_some_iff.1 h
    cases heq
    exact List.forall_mem_cons.2 ⟨ht, hcontent k p.1 p.2 hp⟩
  cases t with
  | startTag n as isEmpty => cases isEmpty <;> exact hprepend _ h
  | endTag n =>
    cases depth with
    | zero =>
      cases h
      simpa using ht
    | succ d => exact hprepend d h
  | text raw => exact hprepend depth h
  | characterData cs => exact hprepend depth h

theorem yields_content (depth : Nat) : Yields (content depth) fun ts => ∀ t ∈ ts, t.IsScanned := by
  intro cs ts r h
  induction hn : cs.length using Nat.strongRecOn generalizing depth cs ts r with | _ n ih
  by_cases hempty : cs.isEmpty
  · rw [content, if_pos hempty] at h
    cases h
    simp
  cases htoken : token? cs with
  | none =>
    rw [content, if_neg hempty, htoken] at h
    cases h
  | some p =>
  obtain ⟨t?, rest⟩ := p
  by_cases hless : rest.length < cs.length
  · have hrest (k : Nat) (ts : List Token) (r : List Char) (h : content k rest = some (ts, r)) :
        ∀ t ∈ ts, t.IsScanned := ih rest.length (hn ▸ hless) k rest ts r h rfl
    cases t? with
    | none =>
      rw [content, if_neg hempty, htoken] at h
      simp only [hless, if_true] at h
      exact hrest depth ts r h
    | some t =>
      rw [content_of_token htoken hless] at h
      exact isScanned_contentFrom (yields_token? cs _ rest htoken t rfl) hrest h
  · rw [content, if_neg hempty, htoken] at h
    simp only [hless, if_false] at h
    cases h

theorem yields_root : root.Yields fun ts => ∀ t ∈ ts, t.IsScanned := by
  refine yields_bind fun _ => yields_ite (fun _ => ?_) fun _ => yields_pure (by simp)
  refine yields_startTagRest.bind fun t ht => ?_
  split
  · exact yields_pure (by simpa using ht)
  · exact (yields_content 0).bind fun ts hts => yields_pure (List.forall_mem_cons.2 ⟨ht, hts⟩)

theorem yields_document : document.Yields fun p => ∀ t ∈ p.2, t.IsScanned := by
  have hroot (entities : List Entity) : Yields (do
      misc
      let tokens ← root
      misc
      return (entities, tokens)) fun p => ∀ t ∈ p.2, t.IsScanned :=
    yields_bind fun _ => yields_root.bind fun ts hts => yields_bind fun _ => yields_pure hts
  have hentities : Yields (do
      misc
      let entities ← do
        if ← tryWord "<!DOCTYPE" then doctypeRest else pure []
      misc
      let tokens ← root
      misc
      return (entities, tokens)) fun p => ∀ t ∈ p.2, t.IsScanned :=
    yields_bind fun _ => yields_bind fun _ =>
      yields_ite (fun _ => yields_bind hroot) fun _ => yields_bind hroot
  exact yields_bind fun _ => yields_bind fun _ =>
    yields_ite (fun _ => yields_bind fun _ => yields_bind fun _ => hentities) fun _ => hentities

/-- A piece stands for nothing but characters that a document may contain, as far as it goes. -/
def Piece.IsXml : Piece → Prop
  | .plain c | .reference c => isXmlChar c = true
  | .entity _ => True

namespace Piece

theorem leaves_charReference : charReference.Leaves := by
  refine leaves_bind (leaves_tryWord _) fun b => leaves_ite
    (leaves_bind (leaves_run _) fun ds => leaves_bind (leaves_pure _) fun n? => ?_)
    (leaves_bind (leaves_run _) fun ds => leaves_bind (leaves_pure _) fun n? => ?_)
  all_goals
    cases n? with
    | none => exact leaves_fail
    | some n => exact leaves_ite (leaves_pure _) leaves_fail

theorem yields_charReference : charReference.Yields IsXml := by
  refine yields_bind fun b => yields_ite
    (fun _ => yields_bind fun ds => yields_bind fun n? => ?_)
    fun _ => yields_bind fun ds => yields_bind fun n? => ?_
  all_goals
    cases n? with
    | none => exact yields_fail
    | some n => exact yields_ite (fun hn => yields_pure hn) fun _ => yields_fail

theorem leaves_name : name.Leaves :=
  leaves_bind (leaves_satisfy _) fun _ => leaves_bind (leaves_run _) fun _ => leaves_pure _

theorem leaves_referenceRest : referenceRest.Leaves := by
  have hend (p : Piece) : Leaves (do char ';'; return p) :=
    leaves_bind (leaves_bind (leaves_satisfy _) fun _ => leaves_pure _) fun _ => leaves_pure _
  refine leaves_bind (leaves_tryWord _) fun b => leaves_ite ?_ ?_
  · exact leaves_bind leaves_charReference hend
  · exact leaves_bind leaves_name fun n => leaves_bind (leaves_pure _) hend

theorem isXml_predefined? (name : String) : IsXml (match predefined? name with
    | some c => .reference c
    | none => .entity name) := by
  cases h : predefined? name with
  | none => trivial
  | some c =>
    unfold predefined? at h
    split at h <;> cases h <;> rfl

theorem yields_referenceRest : referenceRest.Yields IsXml := by
  have hend (p : Piece) (hp : p.IsXml) : Yields (do char ';'; return p) IsXml :=
    yields_bind fun _ => yields_pure hp
  refine yields_bind fun b => yields_ite (fun _ => yields_charReference.bind hend) fun _ => ?_
  exact yields_bind fun n => (yields_pure (isXml_predefined? n)).bind hend

theorem leaves_scan : scan.Leaves := by
  refine leaves_bind (leaves_tryWord _) fun b => leaves_ite leaves_referenceRest ?_
  refine leaves_bind ?_ fun _ => leaves_pure _
  intro cs c r h
  cases cs with
  | nil => cases h
  | cons d cs =>
    cases h
    exact List.suffix_cons ..

theorem isXml_scan {cs r : List Char} {p : Piece} (hcs : cs.all isXmlChar = true)
    (h : scan cs = some (p, r)) : p.IsXml := by
  rw [scan, bind_run, Option.bind_eq_some_iff] at h
  obtain ⟨⟨b, r'⟩, hb, h⟩ := h
  cases b with
  | true => exact yields_referenceRest r' p r h
  | false =>
    cases r' with
    | nil => cases h
    | cons c r' =>
      cases h
      have hmem : c ∈ cs := (leaves_tryWord _ _ _ _ hb).mem List.mem_cons_self
      exact List.all_eq_true.1 hcs c hmem

theorem isXml_ofRaw? {cs : List Char} {ps : List Piece} (hcs : cs.all isXmlChar = true)
    (h : ofRaw? cs = some ps) : ∀ p ∈ ps, p.IsXml := by
  rw [ofRaw?, whole?] at h
  split at h
  · rename_i hmany
    cases h
    exact forall_mem_many leaves_scan (fun _ _ _ => isXml_scan) hcs hmany
  · cases h

end Piece

end Schematron.Xml
