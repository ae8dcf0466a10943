import Schematron.Proofs.Report.Restriction
import Schematron.Proofs.Report.Messages
import Schematron.Proofs.Xml.RoundTrip

/-!
# Saved reports

A report that has been written says the same when it is read again. Its tags come back as they were,
and so do the words of its texts: the line breaks of the writer stand beside elements and hold no
word, and an element that holds text holds nothing else.
-/
namespace Schematron.Report
open Xml

def Header.values (h : Header) : List String :=
  h.title.toList ++ h.schemaVersion.toList ++ h.phase :: h.namespaces.flatMap fun n => [n.1, n.2]

def Entry.values : Entry → List String
  | .activePattern id name document => document :: id.toList ++ name.toList
  | .firedRule context id role flag => context :: id.toList ++ role.toList ++ flag.toList
  | .finding f => f.test :: f.location :: f.id.toList ++ f.role.toList ++ f.flag.toList ++
    f.diagnostics.map (·.1)

def Entry.texts : Entry → List String
  | .finding f => f.text :: f.diagnostics.map (·.2)
  | _ => []

theorem mayBind_svrl : MayBind "svrl" svrlUri where
  name := by decide
  value := by decide
  ne_xml := by decide
  ne_xmlns := by decide
  uri_ne_xml := by decide
  uri_ne_xmlns := by decide

theorem isIn_svrl {l : String} (h : isNamePart l = true) : (svrl l).tag.IsIn "svrl" svrlUri where
  name := rfl
  localName := h
  plain a ha := by cases ha
  attributeNames a ha := by cases ha
  values a ha := by cases ha
  distinct := List.nodup_nil

/-- An element below the root of a report that can be written. -/
structure IsPart (e : Element) : Prop where
  tag : e.tag.IsIn "svrl" svrlUri
  namespaces : e.tag.namespaces = []
  children : Node.AreWritable (Tag.Inherits "svrl" svrlUri) false e.children

theorem areWritable_parts {es : List Element} (h : ∀ e ∈ es, IsPart e) (afterText : Bool) :
    Node.AreWritable (Tag.Inherits "svrl" svrlUri) afterText (es.map Element.toNode) := by
  induction es generalizing afterText with
  | nil => trivial
  | cons e es ih =>
    have he := h e List.mem_cons_self
    exact ⟨⟨⟨he.namespaces, he.tag⟩, he.children⟩, ih (fun e he => h e (List.mem_cons_of_mem _ he)) _⟩

theorem isPart_svrl {l : String} (h : isNamePart l = true) : IsPart (svrl l) :=
  ⟨isIn_svrl h, rfl, trivial⟩

namespace IsPart
variable {e : Element}

theorem withAttr (h : IsPart e) {l : String} {v : Option String} (hl : isAttributeName l = true)
    (hv : ∀ s ∈ v, IsXmlValue s) : IsPart (e.withAttr l v) := by
  refine ⟨h.tag.withAttr hl hv, ?_, h.children⟩
  cases v <;> exact h.namespaces

theorem setAttr (h : IsPart e) {l v : String} (hl : isAttributeName l = true) (hv : IsXmlValue v) :
    IsPart (e.withAttr l (some v)) := ⟨h.tag.setAttr hl hv, h.namespaces, h.children⟩

theorem pushText (h : IsPart e) (hnil : e.children = []) {s : String} (hs : IsXmlText s) :
    IsPart (e.pushText s) := by
  refine ⟨h.tag, h.namespaces, ?_⟩
  by_cases hempty : s = ""
  · simp [Element.pushText, Node.appendText, hnil, hempty, Node.AreWritable]
  · rw [Element.pushText, hnil]
    simp [Node.appendText, hempty, Node.AreWritable, Node.IsWritable, hs]

theorem pushAll (h : IsPart e) (hnil : e.children = []) {cs : List Element}
    (hcs : ∀ c ∈ cs, IsPart c) : IsPart (cs.foldl (·.push ·) e) := by
  rw [pushAll_eq, hnil, List.nil_append]
  exact ⟨h.tag, h.namespaces, areWritable_parts hcs false⟩

end IsPart

theorem isPart_namespaceElement {n : String × String} (hpre : IsXmlValue n.1)
    (huri : IsXmlValue n.2) : IsPart (namespaceElement n) :=
  ((isPart_svrl (by decide)).setAttr (by decide) huri).setAttr (by decide) hpre

theorem isPart_diagnosticElement {d : String × String} (hid : IsXmlValue d.1)
    (htext : IsXmlText d.2) : IsPart (diagnosticElement d) :=
  ((isPart_svrl (by decide)).setAttr (by decide) hid).pushText rfl htext

theorem isPart_element {e : Entry} (hvalues : ∀ v ∈ e.values, IsXmlValue v)
    (htexts : ∀ s ∈ e.texts, IsXmlText s) : IsPart e.element := by
  cases e with
  | activePattern id name document =>
    simp only [Entry.values, List.mem_cons, List.mem_append, Option.mem_toList, or_imp,
      forall_and, forall_eq] at hvalues
    obtain ⟨⟨hdocument, hid⟩, hname⟩ := hvalues
    exact (((isPart_svrl (by decide)).setAttr (by decide) hdocument).withAttr (by decide)
      hid).withAttr (by decide) hname
  | firedRule context id role flag =>
    simp only [Entry.values, List.mem_cons, List.mem_append, Option.mem_toList, or_imp,
      forall_and, forall_eq] at hvalues
    obtain ⟨⟨⟨hcontext, hid⟩, hrole⟩, hflag⟩ := hvalues
    exact ((((isPart_svrl (by decide)).setAttr (by decide) hcontext).withAttr (by decide)
      hid).withAttr (by decide) hrole).withAttr (by decide) hflag
  | finding f =>
    simp only [Entry.values, List.mem_cons, List.mem_append, Option.mem_toList, or_imp,
      forall_and, forall_eq] at hvalues
    obtain ⟨⟨⟨⟨htest, hlocation, hid⟩, hrole⟩, hflag⟩, hdiagnostics⟩ := hvalues
    have hname : isNamePart f.kind.elementName = true := by cases f.kind <;> decide
    have hreferences : ∀ c ∈ f.diagnostics.map diagnosticElement, IsPart c := by
      intro c hc
      obtain ⟨d, hd, rfl⟩ := List.mem_map.1 hc
      exact isPart_diagnosticElement (hdiagnostics d.1 (List.mem_map_of_mem hd))
        (htexts d.2 (List.mem_cons_of_mem _ (List.mem_map_of_mem hd)))
    have htext : IsPart ((svrl "text").pushText f.text) :=
      (isPart_svrl (by decide)).pushText rfl (htexts f.text List.mem_cons_self)
    have hentry : IsPart ((((((svrl f.kind.elementName).withAttr "test" (some f.test)).withAttr
        "id" f.id).withAttr "role" f.role).withAttr "flag" f.flag).withAttr
        "location" (some f.location)) :=
      (((((isPart_svrl hname).setAttr (by decide) htest).withAttr (by decide) hid).withAttr
        (by decide) hrole).withAttr (by decide) hflag).setAttr (by decide) hlocation
    have hall := hentry.pushAll rfl
      (List.forall_mem_append.2 ⟨hreferences, List.forall_mem_singleton.2 htext⟩)
    rwa [List.foldl_append] at hall

/-- A report whose strings may stand in a document is a tree in one vocabulary. -/
theorem isIn_ofEntries {h : Header} {es : List Entry}
    (hvalues : ∀ v ∈ h.values ++ es.flatMap Entry.values, IsXmlValue v)
    (htexts : ∀ s ∈ es.flatMap Entry.texts, IsXmlText s) :
    (ofEntries h es).root.IsIn "svrl" svrlUri := by
  obtain ⟨hheader, hentries⟩ := List.forall_mem_append.1 hvalues
  simp only [Header.values, List.mem_cons, List.mem_append, Option.mem_toList, or_imp, forall_and,
    forall_eq] at hheader
  obtain ⟨⟨htitle, hversion⟩, hphase, hnamespaces⟩ := hheader
  have hroot : IsPart ((((svrl "schematron-output").withAttr "title" h.title).withAttr
      "schemaVersion" h.schemaVersion).withAttr "phase" (some h.phase)) :=
    (((isPart_svrl (by decide)).withAttr (by decide) htitle).withAttr (by decide) hversion).setAttr
      (by decide) hphase
  have hbindings : ∀ c ∈ h.namespaces.map namespaceElement, IsPart c := by
    intro c hc
    obtain ⟨n, hn, rfl⟩ := List.mem_map.1 hc
    exact isPart_namespaceElement (hnamespaces n.1 (List.mem_flatMap.2 ⟨n, hn, by simp⟩))
      (hnamespaces n.2 (List.mem_flatMap.2 ⟨n, hn, by simp⟩))
  have hparts : ∀ c ∈ es.map Entry.element, IsPart c := by
    intro c hc
    obtain ⟨e, he, rfl⟩ := List.mem_map.1 hc
    exact isPart_element (fun v hv => hentries v (List.mem_flatMap.2 ⟨e, he, hv⟩))
      (fun s hs => htexts s (List.mem_flatMap.2 ⟨e, he, hs⟩))
  have htag : h.element.tag = ((((svrl "schematron-output").withAttr "title" h.title).withAttr
      "schemaVersion" h.schemaVersion).withAttr "phase" (some h.phase)).tag.declare
        (some "svrl") svrlUri := by
    rw [Header.element, pushAll_eq]
    rfl
  rw [root_ofEntries]
  refine ⟨?_, ?_, areWritable_parts (List.forall_mem_append.2 ⟨hbindings, hparts⟩) false⟩
  · rw [htag]
    exact hroot.tag.declare _ _
  · rw [htag, Tag.declare, hroot.namespaces]
    rfl

def isLeaf : Node → Bool
  | .text _ | .element _ [] | .element _ [.text _] => true
  | _ => false

theorem nodeWords_lineNodes (depth : Nat) (afterText : Bool) :
    (lineNodes depth afterText).flatMap Message.nodeWords = [] := by
  cases afterText with
  | true => rfl
  | false =>
    have hfeed : Text.isBlank '\n' = true := by decide
    have hspaces (n : Nat) : Text.wordsFrom [] (List.replicate n ' ') = [] := by
      have hspace : Text.isBlank ' ' = true := by decide
      induction n with
      | zero => rfl
      | succ n ih => simp [List.replicate_succ, Text.wordsFrom, hspace, ih]
    simp [lineNodes, Message.nodeWords, Node.stringValue, Text.words, indent, Text.wordsFrom, hfeed,
      hspaces]

theorem nodeWords_reread {n : Node} (h : isLeaf n = true) (depth : Nat) (afterText : Bool) :
    (n.reread depth afterText).flatMap Message.nodeWords = Message.nodeWords n := by
  match n with
  | .text s => simp [Node.reread, Message.nodeWords, Node.stringValue, words_settle]
  | .element t [] =>
    rw [Node.reread, List.flatMap_append, nodeWords_lineNodes]
    rfl
  | .element t [.text s] =>
    rw [Node.reread, List.flatMap_append, nodeWords_lineNodes]
    simp [Node.rereadAll, Node.reread, closingNodes, endsInText, Node.isText, lineNodes,
      Message.nodeWords, Node.stringValue, Node.stringValues, words_settle]

/-- The line breaks of the writer hold no word. -/
theorem entryText_reread {e : Element} (h : e.children.all isLeaf = true) (depth : Nat) :
    Message.entryText (e.reread depth) = Message.entryText e := by
  have hall (afterText : Bool) (ns : List Node) (h : ns.all isLeaf = true) :
      (Node.rereadAll (depth + 1) afterText ns).flatMap Message.nodeWords =
        ns.flatMap Message.nodeWords := by
    induction ns generalizing afterText with
    | nil => rfl
    | cons n ns ih =>
      rw [List.all_cons, Bool.and_eq_true] at h
      rw [Node.rereadAll, List.flatMap_append, nodeWords_reread h.1, ih _ h.2, List.flatMap_cons]
  have hclosing : (closingNodes depth e.children).flatMap Message.nodeWords = [] := by
    rw [closingNodes]
    split
    · rfl
    · exact nodeWords_lineNodes depth (endsInText e.children)
  rw [Message.entryText, Element.reread, List.flatMap_append, hall false e.children h, hclosing,
    List.append_nil, Message.entryText]

theorem isLeaf_pushText {e : Element} (h : e.children = []) (s : String) :
    isLeaf (e.pushText s).toNode = true := by
  by_cases hs : s = "" <;>
    simp [Element.pushText, Element.toNode, Node.appendText, isLeaf, h, hs]

theorem all_isLeaf_element (e : Entry) : e.element.children.all isLeaf = true := by
  cases e with
  | activePattern id name document => rfl
  | firedRule context id role flag => rfl
  | finding f =>
    have hd (d : String × String) : isLeaf (diagnosticElement d).toNode = true :=
      isLeaf_pushText rfl d.2
    have ht : isLeaf ((svrl "text").pushText f.text).toNode = true := isLeaf_pushText rfl f.text
    simp [children_finding, Function.comp_def, hd, ht]

section
variable {f : Element → Element} (htag : ∀ e, (f e).tag = e.tag)
include htag

theorem isFiredRule_map (e : Element) : isFiredRule (f e) = isFiredRule e := by
  rw [isFiredRule, Element.is, Element.name, htag]
  rfl

theorem isFailedAssert_map (e : Element) : isFailedAssert (f e) = isFailedAssert e := by
  rw [isFailedAssert, Element.is, Element.name, htag]
  rfl

theorem attr_map (e : Element) (l : String) : (f e).attr l = e.attr l := by
  rw [Element.attr, htag, Element.attr]

/-- The verdict depends on the tags of entries. -/
theorem allValid_map (rule : Option Element) (es : List Element) :
    allValid (rule.map f) (es.map f) = allValid rule es := by
  induction es generalizing rule with
  | nil => rfl
  | cons e es ih =>
    have hrule : (rule.map f).any (·.attr "role" != some warningRole) =
        rule.any (·.attr "role" != some warningRole) := by
      cases rule <;> simp [attr_map htag]
    rw [List.map_cons, allValid, isFiredRule_map htag, isFailedAssert_map htag, hrule, ih,
      ← Option.map_some, ih, allValid]

/-- The messages depend on the tags of entries and on their words. -/
theorem ofEntries_map (rule : Option Element) {es : List Element}
    (htext : ∀ e ∈ es, Message.entryText (f e) = Message.entryText e) :
    Message.ofEntries (rule.map f) (es.map f) = Message.ofEntries rule es := by
  induction es generalizing rule with
  | nil => rfl
  | cons e es ih =>
    have ih (rule : Option Element) := ih rule fun e he => htext e (List.mem_cons_of_mem _ he)
    have hmessage : Message.ofFailedAssert (rule.map f) (f e) = Message.ofFailedAssert rule e := by
      cases rule <;> simp [Message.ofFailedAssert, attr_map htag, htext e List.mem_cons_self]
    rw [List.map_cons, Message.ofEntries, isFiredRule_map htag, isFailedAssert_map htag, hmessage,
      ih, ← Option.map_some, ih, Message.ofEntries]

end

/-- A report that has been saved is read, and it says what it said before. -/
theorem saved_says_same (h : Header) (es : List Entry)
    (hvalues : ∀ v ∈ h.values ++ es.flatMap Entry.values, IsXmlValue v)
    (htexts : ∀ s ∈ es.flatMap Entry.texts, IsXmlText s) :
    ∃ r, Report.parse? (ofEntries h es).render = some r ∧
      r.isValid = (ofEntries h es).isValid ∧
      r.failedAssertions = (ofEntries h es).failedAssertions ∧
      r.firedRules = (ofEntries h es).firedRules ∧
      Message.ofReport r = Message.ofReport (ofEntries h es) := by
  have hread := parse?_render mayBind_svrl (isIn_ofEntries hvalues htexts)
  -- the entries that are read have the tags of those that were written, in the same order
  have htag (e : Element) : (e.reread 1).tag = e.tag := rfl
  have helements := elements_reread 0 (ofEntries h es).root
  refine ⟨⟨(ofEntries h es).root.reread 0⟩, ?_, ?_, ?_, ?_, ?_⟩
  · rw [Report.parse?, Report.render, hread]
    rfl
  · rw [isValid, helements]
    exact allValid_map htag none _
  · rw [failedAssertions, helements, List.filter_map, List.length_map]
    simp [Function.comp_def, isFailedAssert_map htag, failedAssertions]
  · rw [firedRules, helements, List.filter_map, List.length_map]
    simp [Function.comp_def, isFiredRule_map htag, firedRules]
  · have htext : ∀ e ∈ (ofEntries h es).root.elements,
        Message.entryText (e.reread 1) = Message.entryText e := by
      intro e he
      rw [elements_ofEntries] at he
      refine entryText_reread ?_ 1
      rcases List.mem_append.1 he with he | he
      · obtain ⟨n, _, rfl⟩ := List.mem_map.1 he
        rfl
      · obtain ⟨entry, _, rfl⟩ := List.mem_map.1 he
        exact all_isLeaf_element entry
    rw [Message.ofReport, helements]
    exact ofEntries_map htag none htext

/-- Markup in strings, a carriage return in a text and an empty text. -/
theorem saved_says_same_escaped :
    ∃ r, Report.parse? (ofEntries ⟨some "a < b & \"c\"", none, "#ALL", [("o", "urn:o?a&b")]⟩
        [.activePattern (some "p") none "o'.xml",
          .firedRule "item[@n > 1]" none (some "warning") none,
          .finding ⟨.failedAssert, "@sku", "/order[1]", none, none, none,
            [("d", ""), ("e", "1 < 2\r\n&")], "needs\ra <sku/>"⟩]).render = some r ∧
      r.isValid = true ∧ r.failedAssertions = 1 ∧ r.firedRules = 1 ∧
      Message.ofReport r =
        [{ isError := false, context := some "item[@n > 1]", test := some "@sku",
           location := some "/order[1]", text := "1 < 2 & needs a <sku/>" }] := by
  obtain ⟨r, hparse, hvalid, hfailed, hfired, hmessages⟩ :=
    saved_says_same ⟨some "a < b & \"c\"", none, "#ALL", [("o", "urn:o?a&b")]⟩
      [.activePattern (some "p") none "o'.xml",
        .firedRule "item[@n > 1]" none (some "warning") none,
        .finding ⟨.failedAssert, "@sku", "/order[1]", none, none, none,
          [("d", ""), ("e", "1 < 2\r\n&")], "needs\ra <sku/>"⟩] (by decide) (by decide)
  refine ⟨r, hparse, hvalid.trans ?_, hfailed.trans ?_, hfired.trans ?_, hmessages.trans ?_⟩
  · decide
  · decide
  · decide
  · decide

end Schematron.Report
