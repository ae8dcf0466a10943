import Schematron.Report.Basic

/-!
# Writing reports

Entries are values of `Report.Entry`, and a report is its header followed by its entries in the
order in which they arise.
-/
namespace Schematron.Report

/-- What a test found. -/
inductive FindingKind where
  | failedAssert
  | successfulReport
  deriving DecidableEq, Repr, Inhabited

def FindingKind.elementName : FindingKind → String
  | .failedAssert => "failed-assert"
  | .successfulReport => "successful-report"

/-- A finding of one test at one node. -/
structure Finding where
  kind : FindingKind
  test : String
  location : String
  id : Option String
  role : Option String
  flag : Option String
  /-- The diagnostics of the test: their ids and texts. -/
  diagnostics : List (String × String)
  text : String
  deriving DecidableEq, Repr, Inhabited

/-- One entry of a report. -/
inductive Entry where
  | activePattern (id name : Option String) (document : String)
  | firedRule (context : String) (id role flag : Option String)
  | finding (f : Finding)
  deriving DecidableEq, Repr, Inhabited

/-- What a report says of the schema. -/
structure Header where
  title : Option String
  schemaVersion : Option String
  phase : String
  namespaces : List (String × String)
  deriving DecidableEq, Repr, Inhabited

def diagnosticElement (d : String × String) : Xml.Element :=
  ((svrl "diagnostic-reference").withAttr "diagnostic" (some d.1)).pushText d.2

def Entry.element : Entry → Xml.Element
  | .activePattern id name document =>
    (((svrl "active-pattern").withAttr "document" (some document)).withAttr "id" id).withAttr
      "name" name
  | .firedRule context id role flag =>
    ((((svrl "fired-rule").withAttr "context" (some context)).withAttr "id" id).withAttr
      "role" role).withAttr "flag" flag
  | .finding f =>
    let entry := (((((svrl f.kind.elementName).withAttr "test" (some f.test)).withAttr
      "id" f.id).withAttr "role" f.role).withAttr "flag" f.flag).withAttr
      "location" (some f.location)
    ((f.diagnostics.map diagnosticElement).foldl (·.push ·) entry).push
      ((svrl "text").pushText f.text)

def namespaceElement (n : String × String) : Xml.Element :=
  ((svrl "ns-prefix-in-attribute-values").withAttr "uri" (some n.2)).withAttr "prefix" (some n.1)

/-- A report without entries. -/
def Header.element (h : Header) : Xml.Element :=
  let root := ((((svrl "schematron-output").withAttr "title" h.title).withAttr
    "schemaVersion" h.schemaVersion).withAttr "phase" (some h.phase)).declare (some "svrl") svrlUri
  (h.namespaces.map namespaceElement).foldl (·.push ·) root

def ofEntries (h : Header) (es : List Entry) : Report :=
  ⟨(es.map Entry.element).foldl (·.push ·) h.element⟩

theorem elements_foldl_push (es : List Xml.Element) (root : Xml.Element) :
    (es.foldl (·.push ·) root).elements = root.elements ++ es := by
  induction es generalizing root with
  | nil => simp
  | cons e es ih => simp [ih]

end Schematron.Report
