import Schematron.Number.Basic
import Schematron.Text.Hex
import Schematron.Xml.Markup

/-!
# References

Raw text as pieces: plain characters, character references, and references to entities that the
document declares. A reference to one of the five predefined entities counts as a character
reference, so no declaration changes its meaning.
-/
namespace Schematron.Xml
open Schematron.Text Schematron.Text.Scan

/-- A piece of raw text or of a raw attribute value. -/
inductive Piece where
  | plain (c : Char)
  | reference (c : Char)
  | entity (name : String)
  deriving Repr, Inhabited

namespace Piece

/-- The value of a run of digits, which must not be empty and must fit 32 bits. -/
def codePoint? (base : Nat) (ds : List Char) : Option Nat :=
  if ds.isEmpty then none
  else
    let n := ds.foldl (fun n c => base * n + (Hex.value? c).getD 0) 0
    if n < Number.capacity 32 then some n else none

/-- The character with a code point; the replacement character where there is none. -/
def charOf (n : Nat) : Char := if n.isValidChar then Char.ofNat n else '\uFFFD'

/-- A character reference, after its opening mark. -/
def charReference : Scan Piece := do
  let n? ← do
    if ← tryWord "x" then pure (codePoint? 16 (← run Hex.isDigit))
    else pure (codePoint? 10 (← run Char.isDigit))
  match n? with
  | none => fail
  | some n => if isXmlChar (charOf n) then return .reference (charOf n) else fail

def predefined? (name : String) : Option Char :=
  match name with
  | "quot" => some '"'
  | "amp" => some '&'
  | "apos" => some '\''
  | "lt" => some '<'
  | "gt" => some '>'
  | _ => none

/-- A reference, after its ampersand. -/
def referenceRest : Scan Piece := do
  let p ← do
    if ← tryWord "#" then charReference
    else
      let n ← Scanner.name
      pure (match predefined? n with
        | some c => .reference c
        | none => .entity n)
  Scanner.char ';'
  return p

def scan : Scan Piece := do
  if ← tryWord "&" then referenceRest else return .plain (← next)

/-- The pieces of a raw text; none if a reference in it is malformed. -/
def ofRaw? (cs : List Char) : Option (List Piece) := whole? (many scan) cs

end Piece

end Schematron.Xml
