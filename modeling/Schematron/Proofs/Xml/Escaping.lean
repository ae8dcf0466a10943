import Schematron.Proofs.Text.Scanning
import Schematron.Xml.Reference
import Schematron.Xml.Serialize

/-!
# Escaped text

A written text holds no markup: five characters are written as references, and all others as they
are. It is read as one piece for each character (`ofRaw?_escape`).
-/
namespace Schematron.Xml
open Schematron.Text Scan

def IsXmlText (s : String) : Prop := s.toList.all isXmlChar = true

instance : DecidablePred IsXmlText := fun s =>
  inferInstanceAs (Decidable (s.toList.all isXmlChar = true))

def isEscaped (c : Char) : Bool := c == '<' || c == '>' || c == '&' || c == '\'' || c == '"'

theorem toList_escape (s : String) :
    (escape s).toList = s.toList.flatMap fun c => (escapeChar c).toList := by
  rw [escape, String.toList_join, List.flatMap_map]

theorem escapeChar_of_not {c : Char} (h : isEscaped c = false) : (escapeChar c).toList = [c] := by
  unfold escapeChar
  split <;> first | exact absurd h (by decide) | simp

theorem isEscaped_cases {c : Char} (h : isEscaped c = true) :
    c = '<' ∨ c = '>' ∨ c = '&' ∨ c = '\'' ∨ c = '"' := by
  simpa [isEscaped, or_assoc] using h

/-- Whether a character may stand in written text of either kind, in an attribute value or beside
elements. -/
def isQuotable (c : Char) : Bool := isXmlChar c && c != '"' && c != '<' && c != '>'

theorem all_escapeChar {c : Char} (hc : isXmlChar c = true) :
    (escapeChar c).toList.all isQuotable = true := by
  cases h : isEscaped c with
  | true => rcases isEscaped_cases h with rfl | rfl | rfl | rfl | rfl <;> decide
  | false =>
    rw [escapeChar_of_not h]
    simp_all [isEscaped, isQuotable]

theorem all_escape {s : String} (hs : IsXmlText s) : (escape s).toList.all isQuotable = true := by
  rw [toList_escape, List.all_flatMap, List.all_eq_true]
  intro c hc
  exact all_escapeChar (List.all_eq_true.1 hs c hc)

def Piece.ofChar (c : Char) : Piece := if isEscaped c then .reference c else .plain c

theorem scan_escapeChar (c : Char) (rest : List Char) :
    Piece.scan ((escapeChar c).toList ++ rest) = some (.ofChar c, rest) := by
  cases h : isEscaped c with
  | true => rcases isEscaped_cases h with rfl | rfl | rfl | rfl | rfl <;> rfl
  | false =>
    have hamp : c ≠ '&' := by
      rintro rfl
      exact absurd h (by decide)
    have hplain : tryWord "&" (c :: rest) = some (false, c :: rest) :=
      tryWord_eq_false (by simp [after?, hamp.symm])
    rw [escapeChar_of_not h, List.singleton_append, Piece.scan, bind_run, hplain]
    simp [Piece.ofChar, h, next]

theorem escapeChar_ne_nil (c : Char) : (escapeChar c).toList ≠ [] := by
  cases h : isEscaped c with
  | true => rcases isEscaped_cases h with rfl | rfl | rfl | rfl | rfl <;> decide
  | false => simp [escapeChar_of_not h]

/-- Written text is read character by character. -/
theorem ofRaw?_escape (s : String) :
    Piece.ofRaw? (escape s).toList = some (s.toList.map Piece.ofChar) := by
  have hmany : many Piece.scan ((s.toList.flatMap fun c => (escapeChar c).toList) ++ []) =
      some (s.toList.map Piece.ofChar, []) :=
    many_append (fun c _ => ⟨escapeChar_ne_nil c, scan_escapeChar c⟩) rfl
  rw [List.append_nil] at hmany
  rw [Piece.ofRaw?, toList_escape, whole?, hmany]

end Schematron.Xml
