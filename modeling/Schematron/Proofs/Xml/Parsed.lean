import Schematron.Proofs.Xml.LineEnds
import Schematron.Proofs.Xml.Scopes

/-!
# Documents that have been read

Every token that is added keeps what has been read sound: the tags are sound below the elements that
are open, and the texts hold only characters that a document may contain. So a document is sound
whatever text it was read from (`isSound_parse?`).
-/
namespace Schematron.Xml
open Schematron.Text Scan

mutual

/-- What holds of a node that has been read below an element with the given bindings. -/
def ScopedNode.IsSound (inherited : List Namespace) : ScopedNode → Prop
  | .text s => IsXmlText s
  | .element t cs => t.IsSound inherited ∧ ScopedNode.AreSound t.scope cs

def ScopedNode.AreSound (inherited : List Namespace) : List ScopedNode → Prop
  | [] => True
  | n :: ns => n.IsSound inherited ∧ ScopedNode.AreSound inherited ns

end

theorem areSound_iff {inherited : List Namespace} {ns : List ScopedNode} :
    ScopedNode.AreSound inherited ns ↔ ∀ n ∈ ns, n.IsSound inherited := by
  induction ns with
  | nil => simp [ScopedNode.AreSound]
  | cons n ns ih => simp [ScopedNode.AreSound, ih]

def OpenElement.AreSound : List OpenElement → Prop
  | [] => True
  | o :: os => o.tag.IsSound (Reading.scope { opened := os }) ∧
      (∀ n ∈ o.done, n.IsSound o.tag.scope) ∧ OpenElement.AreSound os

structure Reading.IsSound (r : Reading) : Prop where
  opened : OpenElement.AreSound r.opened
  top : ∀ n ∈ r.top, n.IsSound []

namespace Reading
variable {r r' : Reading}

theorem isSound_empty : Reading.IsSound {} := ⟨trivial, by simp⟩

theorem IsSound.add (h : r.IsSound) {n : ScopedNode} (hn : n.IsSound r.scope) :
    (r.add n).IsSound := by
  obtain ⟨opened, top, references⟩ := r
  obtain ⟨hopened, htop⟩ := h
  cases opened with
  | nil => exact ⟨trivial, List.forall_mem_cons.2 ⟨hn, htop⟩⟩
  | cons o os =>
    obtain ⟨htag, hdone, hos⟩ := hopened
    exact ⟨⟨htag, List.forall_mem_cons.2 ⟨hn, hdone⟩, hos⟩, htop⟩

theorem IsSound.isBinding (h : r.IsSound) : ∀ m ∈ r.scope, m.IsBinding := by
  obtain ⟨opened, top, references⟩ := r
  cases opened with
  | nil =>
    intro m hm
    cases hm
  | cons o os => exact h.opened.1.bindings

theorem IsSound.flush (h : r.IsSound) {buffer : List Char} (hbuffer : buffer.all isXmlChar = true) :
    (r.flush buffer).IsSound := by
  rw [Reading.flush]
  split
  · exact h
  · refine h.add ?_
    rw [ScopedNode.IsSound, IsXmlText, String.toList_ofList, List.all_reverse]
    exact hbuffer

/-- What has been read is the same, references apart. -/
def Same (r r' : Reading) : Prop := r'.opened = r.opened ∧ r'.top = r.top

theorem Same.refl (r : Reading) : Same r r := ⟨rfl, rfl⟩

theorem Same.trans {r'' : Reading} (h : Same r r') (h' : Same r' r'') : Same r r'' :=
  ⟨h'.1.trans h.1, h'.2.trans h.2⟩

theorem IsSound.of_same (h : r.IsSound) (hsame : Same r r') : r'.IsSound := by
  constructor
  · rw [hsame.1]
    exact h.opened
  · rw [hsame.2]
    exact h.top

theorem Same.scope (h : Same r r') : r'.scope = r.scope := by
  rw [Reading.scope, h.1]
  rfl

theorem same_countReference (h : r.countReference = some r') : Same r r' := by
  unfold countReference at h
  split at h
  · cases h
    exact .refl r
  · cases h

end Reading

open Reading

theorem same_attributeValue {inEntity : Bool}
    {expand : String → Reading → Option (List Char × Reading)}
    (hexpand : ∀ n r cs r', expand n r = some (cs, r') → Same r r') {ps : List Piece}
    {r r' : Reading} {cs : List Char} (h : attributeValue inEntity expand ps r = some (cs, r')) :
    Same r r' := by
  induction ps generalizing r cs with
  | nil =>
    cases h
    exact .refl _
  | cons p ps ih =>
    cases p with
    | plain c =>
      simp only [attributeValue, Option.bind_eq_bind, Option.bind_eq_some_iff] at h
      obtain ⟨⟨cs', r₁⟩, hrest, h⟩ := h
      cases h
      exact ih hrest
    | reference c =>
      rw [attributeValue] at h
      split at h
      · cases h
      simp only [Option.bind_eq_bind, Option.bind_eq_some_iff] at h
      obtain ⟨⟨cs', r₁⟩, hrest, h⟩ := h
      cases h
      exact ih hrest
    | entity n =>
      simp only [attributeValue, Option.bind_eq_bind, Option.bind_eq_some_iff] at h
      obtain ⟨⟨value, r₁⟩, hn, ⟨cs', r₂⟩, hrest, h⟩ := h
      cases h
      exact (hexpand n r value r₁ hn).trans (ih hrest)

theorem same_attributeEntity (entities : List Entity) (left : Nat) {n : String} {r r' : Reading}
    {cs : List Char} (h : attributeEntity entities left n r = some (cs, r')) : Same r r' := by
  induction left generalizing n r cs r' with
  | zero => cases h
  | succ left ih =>
    simp only [attributeEntity, Option.bind_eq_bind, Option.bind_eq_some_iff] at h
    obtain ⟨e, _, ps, _, h⟩ := h
    refine same_attributeValue (fun n r cs r' hn => ?_) h
    obtain ⟨r₁, hcount, hn⟩ := Option.bind_eq_some_iff.1 hn
    exact (same_countReference hcount).trans (ih hn)

theorem attributeValues_eq_some {value : List Char → Reading → Option (List Char × Reading)}
    (hvalue : ∀ raw r cs r', value raw r = some (cs, r') → Same r r') {as : List RawAttribute}
    {r r' : Reading} {values : List (RawName × String)}
    (h : attributeValues value as r = some (values, r')) :
    Same r r' ∧ values.map (·.1) = as.map (·.name) := by
  induction as generalizing r values with
  | nil =>
    cases h
    exact ⟨.refl _, rfl⟩
  | cons a as ih =>
    simp only [attributeValues, Option.bind_eq_bind, Option.bind_eq_some_iff] at h
    obtain ⟨⟨cs, r₁⟩, ha, ⟨rest, r₂⟩, hrest, h⟩ := h
    cases h
    obtain ⟨hsame, hnames⟩ := ih hrest
    exact ⟨(hvalue a.value r cs r₁ ha).trans hsame, by simp [hnames]⟩

theorem all_pushText {buffer : List Char} (hbuffer : buffer.all isXmlChar = true) {c : Char}
    (hc : isXmlChar c = true) (isLast : Bool) :
    (pushText buffer c isLast).all isXmlChar = true := by
  rw [List.all_eq_true] at hbuffer ⊢
  intro d hd
  rcases mem_pushText hd with hd | rfl | rfl
  · exact hbuffer d hd
  · exact hc
  · decide

theorem all_normalizeLines {cs : List Char} (h : cs.all isXmlChar = true) :
    (normalizeLines cs).all isXmlChar = true := by
  have hfeed : isXmlChar '\n' = true := by decide
  induction cs using normalizeLines.induct with
  | case1 cs ih =>
    simp only [List.all_cons, Bool.and_eq_true] at h
    rw [normalizeLines, List.all_cons, hfeed, ih h.2.2]
    rfl
  | case2 cs hnext ih =>
    rw [List.all_cons, Bool.and_eq_true] at h
    rw [normalizeLines, List.all_cons, hfeed, ih h.2]
    · rfl
    · exact hnext
  | case3 c cs hreturn hnext ih =>
    rw [List.all_cons, Bool.and_eq_true] at h
    rw [normalizeLines, List.all_cons, h.1, ih h.2]
    · rfl
    · exact hreturn
    · exact hnext
  | case4 => rfl

theorem isSound_addPieces {inEntity asIs : Bool} {expand : String → Reading → Option Reading}
    (hexpand : ∀ n r r', r.IsSound → expand n r = some r' → r'.IsSound) {buffer : List Char}
    {ps : List Piece} {r r' : Reading} (hr : r.IsSound) (hbuffer : buffer.all isXmlChar = true)
    (hps : ∀ p ∈ ps, p.IsXml) (h : addPieces inEntity expand asIs buffer ps r = some r') :
    r'.IsSound := by
  induction ps generalizing asIs buffer r with
  | nil =>
    cases h
    exact hr.flush hbuffer
  | cons p ps ih =>
    obtain ⟨hp, hrest⟩ := List.forall_mem_cons.1 hps
    have hcons {c : Char} (hc : isXmlChar c = true) : (c :: buffer).all isXmlChar = true := by
      rw [List.all_cons, hc, hbuffer]
      rfl
    cases p with
    | plain c =>
      refine ih hr ?_ hrest h
      split
      · exact hcons hp
      · exact all_pushText hbuffer hp ps.isEmpty
    | reference c =>
      rw [addPieces] at h
      split at h
      · exact ih hr (all_pushText hbuffer hp ps.isEmpty) hrest h
      · exact ih hr (hcons hp) hrest h
    | entity n =>
      obtain ⟨r₁, hn, h⟩ := Option.bind_eq_some_iff.1 h
      exact ih (hexpand n _ r₁ (hr.flush hbuffer) hn) rfl hrest h

/-- Replacing references keeps what has been read sound. -/
structure Expansion.IsSound (x : Expansion) : Prop where
  inText : ∀ n r r', r.IsSound → x.inText n r = some r' → r'.IsSound
  inAttribute : ∀ n r cs r', x.inAttribute n r = some (cs, r') → Same r r'

section
variable {x : Expansion} (hx : x.IsSound)
include hx

theorem isSound_addToken {t : Token} (ht : t.IsScanned) {r r' : Reading} (hr : r.IsSound)
    (h : addToken x r t = some r') : r'.IsSound := by
  cases t with
  | characterData cs =>
    cases h
    refine hr.add ?_
    rw [ScopedNode.IsSound, IsXmlText, String.toList_ofList]
    exact all_normalizeLines ht
  | text raw =>
    obtain ⟨ps, hps, h⟩ := Option.bind_eq_some_iff.1 h
    exact isSound_addPieces hx.inText hr rfl (Piece.isXml_ofRaw? ht hps) h
  | startTag n as isEmpty =>
    obtain ⟨hn, has⟩ := ht
    obtain ⟨⟨values, r₁⟩, hvalues, h⟩ := Option.bind_eq_some_iff.1 h
    obtain ⟨tag, htag, h⟩ := Option.bind_eq_some_iff.1 h
    obtain ⟨hsame, hnames⟩ := attributeValues_eq_some (fun raw r cs r' hraw => by
      obtain ⟨ps, _, hraw⟩ := Option.bind_eq_some_iff.1 hraw
      exact same_attributeValue hx.inAttribute hraw) hvalues
    have hr₁ := hr.of_same hsame
    have hwritable : ∀ v ∈ values, v.1.IsWritable := by
      intro v hv
      have hmem : v.1 ∈ as.map (·.name) := hnames ▸ List.mem_map_of_mem hv
      obtain ⟨a, ha, heq⟩ := List.mem_map.1 hmem
      exact heq ▸ has a ha
    have hsound := isSound_scopedTag? hr₁.isBinding hn hwritable htag
    cases isEmpty with
    | true =>
      cases h
      exact hr₁.add ⟨hsound, trivial⟩
    | false =>
      cases h
      exact ⟨⟨hsound, by simp, hr₁.opened⟩, hr₁.top⟩
  | endTag n =>
    obtain ⟨opened, top, references⟩ := r
    cases opened with
    | nil => cases h
    | cons o os =>
      obtain ⟨⟨htag, hdone, hos⟩, htop⟩ := hr
      simp only [addToken] at h
      split at h
      · cases h
        have hrest : Reading.IsSound ⟨os, top, references⟩ := ⟨hos, htop⟩
        refine hrest.add ⟨htag, areSound_iff.2 fun n hn => ?_⟩
        exact hdone n (List.mem_reverse.1 hn)
      · cases h

theorem isSound_addTokens {ts : List Token} (hts : ∀ t ∈ ts, t.IsScanned) {r r' : Reading}
    (hr : r.IsSound) (h : addTokens x ts r = some r') : r'.IsSound := by
  induction ts generalizing r with
  | nil =>
    cases h
    exact hr
  | cons t ts ih =>
    obtain ⟨ht, hts⟩ := List.forall_mem_cons.1 hts
    rw [addTokens, List.foldlM_cons] at h
    obtain ⟨r₁, hr₁, h⟩ := Option.bind_eq_some_iff.1 h
    exact ih hts (isSound_addToken hx ht hr hr₁) h

end

theorem isSound_addEntity (entities : List Entity) (left : Nat) {n : String} {r r' : Reading}
    (hr : r.IsSound) (h : addEntity entities left n r = some r') : r'.IsSound := by
  induction left generalizing n r r' with
  | zero => cases h
  | succ left ih =>
    rw [addEntity] at h
    obtain ⟨e, _, h⟩ := Option.bind_eq_some_iff.1 h
    obtain ⟨⟨tokens, rest⟩, hcontent, h⟩ := Option.bind_eq_some_iff.1 h
    dsimp only at h
    split at h
    · cases h
    refine isSound_addTokens ⟨fun n r r' hr hn => ?_, fun n r cs r' hn => ?_⟩
      (yields_content 0 e.value tokens rest hcontent) hr h
    · obtain ⟨r₁, hcount, hn⟩ := Option.bind_eq_some_iff.1 hn
      exact ih (hr.of_same (same_countReference hcount)) hn
    · obtain ⟨r₁, hcount, hn⟩ := Option.bind_eq_some_iff.1 hn
      exact (same_countReference hcount).trans (same_attributeEntity entities left hn)

theorem isSound_topExpansion (entities : List Entity) : (topExpansion entities).IsSound where
  inText n r r' hr h := by
    have hreset : ({ r with references := 0 } : Reading).IsSound := ⟨hr.opened, hr.top⟩
    exact isSound_addEntity entities entityDepth hreset h
  inAttribute n r cs r' h := by
    have hreset : Same r { r with references := 0 } := ⟨rfl, rfl⟩
    exact hreset.trans (same_attributeEntity entities entityDepth h)

def Document.IsSound (d : Document) : Prop :=
  ScopedNode.IsSound [] (.element d.root.tag d.root.children)

theorem isSound_parse? {text : String} {d : Document} (h : Document.parse? text = some d) :
    d.IsSound := by
  rw [Document.parse?] at h
  obtain ⟨⟨entities, tokens⟩, hdocument, h⟩ := Option.bind_eq_some_iff.1 h
  obtain ⟨r, hr, h⟩ := Option.bind_eq_some_iff.1 h
  have htokens : ∀ t ∈ tokens, t.IsScanned := by
    rw [whole?] at hdocument
    split at hdocument
    · rename_i hscan
      cases hdocument
      exact yields_document _ _ _ hscan
    · cases hdocument
  have hsound := isSound_addTokens (isSound_topExpansion entities) htokens isSound_empty hr
  dsimp only at h
  split at h
  · cases h
  obtain ⟨n, hn, hd⟩ := List.exists_of_findSome?_eq_some h
  cases n with
  | text s => cases hd
  | element t cs =>
    cases hd
    exact hsound.top _ (List.mem_reverse.1 hn)

end Schematron.Xml
