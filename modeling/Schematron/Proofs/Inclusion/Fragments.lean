import Schematron.Proofs.Inclusion.Chains
import Schematron.Proofs.Url.Fragments

/-!
# Elements that references name

A reference with a fragment loads the document to which it leads without it, and the fragment is
compared with the ids there in the form in which it is written in a URL. So the first element with
an id is found if the id is a name in ASCII (`load_selects_first`), but not if it is another name.
-/
namespace Schematron

namespace Xml.Document
variable {d : Document} {id : String} {e : ScopedElement}

def IsFirst (d : Document) (id : String) (e : ScopedElement) : Prop :=
  ∃ before after, d.elements = before ++ e :: after ∧ e.attr "id" = some id ∧
    ∀ x ∈ before, x.attr "id" ≠ some id

theorem elementById_eq_some : d.elementById id = some e ↔ d.IsFirst id e := by
  simp only [elementById, List.find?_eq_some_iff_append, IsFirst, beq_iff_eq, Bool.not_eq_true',
    beq_eq_false_iff_ne]
  constructor
  · rintro ⟨hid, before, after, hsplit, hbefore⟩
    exact ⟨before, after, hsplit, hid, hbefore⟩
  · rintro ⟨before, after, hsplit, hid, hbefore⟩
    exact ⟨hid, before, after, hsplit, hbefore⟩

theorem elementById_eq_none : d.elementById id = none ↔ id ∉ d.ids := by
  simp [elementById, ids, List.find?_eq_none]

end Xml.Document

namespace Inclusion
open Xml Sequencing

/-- A reference is a URL, absolute or relative to that of the base. Where the base has none, a
reference that is no absolute URL is a path. -/
def Base.Resolves (base : Base) (href : String) (u : Url) : Prop :=
  match base.url with
  | some b => b.join href = .ok u
  | none => Url.parse href = .ok u ∧ 1 < u.scheme.length

def Target.within (u : Url) (i : String) : Target :=
  ⟨u.withoutFragment, some (Url.writtenFragment i)⟩

section
variable {resolver : Resolver} {c : Context} {tag : Tag} {href i text : String} {u : Url}
variable {d : Document}

theorem lt_of_isNamePart (h : isNamePart i = true) : ∀ c ∈ i.toList, 0x20 < c.toNat := by
  intro c hc
  have hname := List.all_eq_true.1 (isNamePart_iff.1 h).2.1 c hc
  by_contra hle
  have hblank : ∀ m < 0x21, isNameChar (Char.ofNat m) = false := by decide
  rw [Url.of_forall_ofNat (P := fun c => isNameChar c = false) hblank (by omega)] at hname
  cases hname

theorem target_within {base : Base} (hresolves : base.Resolves href u) (hplace : u.HasPlace)
    (hhash : '#' ∉ href.toList) (hlast : ∀ ch ∈ href.toList.getLast?, 0x20 < ch.toNat)
    (hname : isNamePart i = true) (hhref : tag.attr "href" = some (href ++ "#" ++ i)) :
    target base tag = .ok (.within u i) := by
  have hi := lt_of_isNamePart hname
  unfold Base.Resolves at hresolves
  unfold target
  rw [hhref]
  cases hbase : base.url with
  | some b =>
    rw [hbase] at hresolves
    have hjoin := Url.join_fragment hhash hlast hi hplace hresolves
    simp only [hjoin]
    rfl
  | none =>
    rw [hbase] at hresolves
    obtain ⟨hresolves, hscheme⟩ := hresolves
    have hparse := Url.parse_fragment hhash hlast hi hplace hresolves
    have hlength : ¬ (u.withFragment i.toList).scheme.length ≤ 1 := Nat.not_le.2 hscheme
    simp only [Url.ofSystemId?, hparse, if_neg hlength]
    rfl

theorem fragment_eq_none_of_ofPath? {path : String} (h : Url.ofPath? path = some u) :
    u.fragment = none := by
  unfold Url.ofPath? at h
  split_ifs at h
  cases h
  rfl

/-- A `#` in a path is a part of the path. -/
theorem fragment_eq_none_of_path {base : Base} {t : Target} (hbase : base.url = none)
    (hpath : ∀ v, Url.parse href = .ok v → v.scheme.length ≤ 1)
    (hhref : tag.attr "href" = some href) (htarget : target base tag = .ok t) :
    t.fragment = none := by
  have hid : Url.ofSystemId? base.directory href =
      (Path.absolute? base.directory href).bind Url.ofPath? := by
    unfold Url.ofSystemId?
    split
    · rename_i v hparse
      exact if_pos (hpath v hparse)
    · rfl
  unfold target at htarget
  simp only [hhref, hbase, hid] at htarget
  cases hplace : (Path.absolute? base.directory href).bind Url.ofPath? with
  | none => simp [hplace] at htarget
  | some v =>
    obtain ⟨path, -, hv⟩ := Option.bind_eq_some_iff.1 hplace
    simp only [hplace] at htarget
    cases htarget
    exact fragment_eq_none_of_ofPath? hv

theorem load_eq_select {t : Target} (htarget : target c.base tag = .ok t)
    (hnew : t.render ∉ c.chain) (hfetch : resolver.fetch t.url = .ok text) :
    load resolver c tag = do return (t, ← select ((tag.attr "href").getD "") t text) := by
  have hon : onChain c.chain t = false := by
    rw [← Bool.not_eq_true, onChain_iff]
    exact hnew
  simp only [load, htarget, ok_bind, hon, hfetch]
  rfl

theorem select_within (hparse : Document.parse? text = some d) :
    select href (.within u i) text =
      match d.elementById (Url.writtenFragment i) with
      | some e => .ok (.ofScoped e)
      | none =>
        .error (.unresolved href ("no element with id `" ++ Url.writtenFragment i ++ "`")) := by
  rw [select, hparse]
  rfl

/-- A reference with a fragment loads the first element whose id is the fragment as it is written in
a URL, and this is then expanded; it fails exactly if there is no such element. What is written is
the fragment itself, if it is a name in ASCII, and no name, if it is another one. -/
theorem load_selects_first (hresolves : c.base.Resolves href u) (hplace : u.HasPlace)
    (hhash : '#' ∉ href.toList) (hlast : ∀ ch ∈ href.toList.getLast?, 0x20 < ch.toNat)
    (hname : isNamePart i = true) (hhref : tag.attr "href" = some (href ++ "#" ++ i))
    (hfetch : resolver.fetch u.withoutFragment = .ok text) (hparse : Document.parse? text = some d)
    (hnew : (Target.within u i).render ∉ c.chain) :
    (Url.writtenFragment i ∈ d.ids → ∃ e, d.IsFirst (Url.writtenFragment i) e ∧
      load resolver c tag = .ok (.within u i, .ofScoped e) ∧
      ∀ depth, follow resolver (depth + 1) c tag = do
        let children ← expandNodes (follow resolver depth) (c.enter (.within u i)) []
          (Element.ofScoped e).children
        return { Element.ofScoped e with children }) ∧
    (load resolver c tag = .error (.unresolved (href ++ "#" ++ i)
        ("no element with id `" ++ Url.writtenFragment i ++ "`")) ↔
      Url.writtenFragment i ∉ d.ids) ∧
    ((∀ ch ∈ i.toList, ch.toNat < 0x80) → Url.writtenFragment i = i) ∧
    ((¬ ∀ ch ∈ i.toList, ch.toNat < 0x80) → isNamePart (Url.writtenFragment i) = false) := by
  have htarget := target_within hresolves hplace hhash hlast hname hhref
  have hload : load resolver c tag = do
      return (.within u i, ← select (href ++ "#" ++ i) (.within u i) text) := by
    rw [load_eq_select htarget hnew hfetch, hhref]
    rfl
  rw [select_within hparse] at hload
  refine ⟨fun hid => ?_, ?_, Url.writtenFragment_eq_self hname,
    Url.isNamePart_writtenFragment hname⟩
  · cases hfind : d.elementById (Url.writtenFragment i) with
    | none => exact absurd hid (Document.elementById_eq_none.1 hfind)
    | some e =>
      rw [hfind] at hload
      refine ⟨e, Document.elementById_eq_some.1 hfind, hload, fun depth => ?_⟩
      rw [follow, hload]
      rfl
  · rw [hload, ← Document.elementById_eq_none]
    cases d.elementById (Url.writtenFragment i) with
    | none => simp
    | some e => simp

end

def includeTag (href : String) : Tag :=
  ⟨.inNamespace schematronUri "sch" "include", [], [⟨.plain "href", href⟩]⟩

/-- A document with two patterns, of which one has a name in ASCII. -/
def patternsText : String :=
  "<s:schema xmlns:s='http://purl.oclc.org/dsdl/schematron'>" ++
    "<s:pattern id='ascii'/><s:pattern id='é'/></s:schema>"

def patternsUrl : Url := ⟨"http", some ⟨"", "example.com", none⟩, .segments ["a.sch"], none, none⟩

def patterns : Resolver := .ofList [("http://example.com/a.sch", patternsText)]

theorem resolves_patternsUrl : includingBase.Resolves "a.sch" patternsUrl := by
  have hjoin : (Url.join
      ⟨"http", some ⟨"", "example.com", none⟩, .segments ["main.sch"], none, none⟩
      "a.sch").toOption = some patternsUrl := by decide +kernel
  exact eq_ok_of_toOption hjoin

theorem hasPlace_patternsUrl : patternsUrl.HasPlace :=
  fun hauthority => absurd hauthority (by decide)

theorem blank_lt_getLast?_patterns : ∀ ch ∈ "a.sch".toList.getLast?, 0x20 < ch.toNat := by
  have hlast : "a.sch".toList.getLast? = some 'h' := by decide
  rw [hlast]
  rintro ch ⟨⟩
  decide

theorem fetch_patternsUrl : patterns.fetch patternsUrl.withoutFragment = .ok patternsText := by
  rfl

theorem parse?_patternsText :
    ∃ d, Document.parse? patternsText = some d ∧ d.ids = ["ascii", "é"] := by
  have hids : (Document.parse? patternsText).map (·.ids) = some ["ascii", "é"] := by decide +kernel
  simpa using hids

theorem load_selects_first_ascii :
    ∃ d e, Document.parse? patternsText = some d ∧ d.IsFirst "ascii" e ∧
      load patterns ⟨includingBase, []⟩ (includeTag "a.sch#ascii") =
        .ok (.within patternsUrl "ascii", .ofScoped e) ∧
      Url.writtenFragment "ascii" = "ascii" := by
  obtain ⟨d, hparse, hids⟩ := parse?_patternsText
  have hhref : (includeTag "a.sch#ascii").attr "href" = some ("a.sch" ++ "#" ++ "ascii") := by rfl
  obtain ⟨hfound, -, hascii, -⟩ := load_selects_first (c := ⟨includingBase, []⟩)
    resolves_patternsUrl hasPlace_patternsUrl (by decide) blank_lt_getLast?_patterns (by decide)
    hhref fetch_patternsUrl hparse (by decide)
  have hall : "ascii".toList.all (fun ch => ch.toNat < 0x80) = true := by decide
  have hwritten := hascii fun ch hch => of_decide_eq_true (List.all_eq_true.1 hall ch hch)
  rw [hwritten, hids] at hfound
  obtain ⟨e, hfirst, hload, -⟩ := hfound (by decide)
  exact ⟨d, e, hparse, hfirst, hload, hwritten⟩

/-- Not every element that a reference names is found. -/
theorem not_forall_load_selects_named :
    ¬ ∀ (resolver : Resolver) (c : Context) (tag : Tag) (href i text : String) (u : Url)
      (d : Document), c.base.Resolves href u → u.HasPlace → '#' ∉ href.toList →
      (∀ ch ∈ href.toList.getLast?, 0x20 < ch.toNat) → isNamePart i = true →
      tag.attr "href" = some (href ++ "#" ++ i) → resolver.fetch u.withoutFragment = .ok text →
      Document.parse? text = some d → c.chain = [] → i ∈ d.ids →
      ∃ t e, load resolver c tag = .ok (t, .ofScoped e) ∧ d.IsFirst i e := by
  intro hall
  obtain ⟨d, hparse, hids⟩ := parse?_patternsText
  have hhref : (includeTag "a.sch#é").attr "href" = some ("a.sch" ++ "#" ++ "é") := by rfl
  obtain ⟨t, e, hload, -⟩ := hall patterns ⟨includingBase, []⟩ (includeTag "a.sch#é") "a.sch" "é"
    patternsText patternsUrl d resolves_patternsUrl hasPlace_patternsUrl (by decide)
    blank_lt_getLast?_patterns (by decide) hhref fetch_patternsUrl hparse rfl (by simp [hids])
  have hnone : (load patterns ⟨includingBase, []⟩ (includeTag "a.sch#é")).toOption.isSome =
      false := by decide +kernel
  rw [hload] at hnone
  cases hnone

end Inclusion

end Schematron
