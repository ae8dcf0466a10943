import Schematron.Vocabulary
import Schematron.Xml.Document
import Schematron.Xml.Serialize

/-!
# Validation reports

A report is an SVRL tree: in document order it lists the active patterns, the rules that fired and
what their tests found. A failed assertion belongs to the last fired rule before it; the role
`warning` of that rule keeps the assertion from making the document invalid.
-/
namespace Schematron

def warningRole : String := "warning"

/-- A validation report. -/
structure Report where
  root : Xml.Element
  deriving Repr, Inhabited, BEq

namespace Report

def parse? (text : String) : Option Report := (Xml.Element.parse? text).map (⟨·⟩)

def isFiredRule (e : Xml.Element) : Bool := e.is svrlUri "fired-rule"

def isFailedAssert (e : Xml.Element) : Bool := e.is svrlUri "failed-assert"

/-- Whether no entry is a failed assertion of a rule without the role `warning`, where `rule` is the
last rule that fired. -/
def allValid (rule : Option Xml.Element) : List Xml.Element → Bool
  | [] => true
  | e :: es =>
    if isFiredRule e then allValid (some e) es
    else if isFailedAssert e && rule.any (·.attr "role" != some warningRole) then false
    else allValid rule es

/-- Whether the document is valid. A failed assertion before any fired rule does not count. -/
def isValid (r : Report) : Bool := allValid none r.root.elements

def failedAssertions (r : Report) : Nat := (r.root.elements.filter isFailedAssert).length

def firedRules (r : Report) : Nat := (r.root.elements.filter isFiredRule).length

def render (r : Report) : String := r.root.render

end Report

end Schematron
