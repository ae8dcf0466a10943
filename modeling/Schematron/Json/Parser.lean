import Schematron.Json.Basic
import Schematron.Number.Basic
import Schematron.Number.Numeral
import Schematron.Text.Hex
import Schematron.Text.Scan

/-!
# Reading JSON

The grammar of RFC 8259: one value with white space around it, nothing after it.
-/
namespace Schematron.Json
open Schematron.Text Schematron.Text.Scan

namespace Reader

def spaces : Scan Unit := do let _ ← run fun c => c == ' ' || c == '\n' || c == '\t' || c == '\r'

/-- A character outside any class. -/
def char (c : Char) : Scan Unit := do let _ ← satisfy (· == c)

def hexDigit : Scan Nat := do
  match Hex.value? (← next) with
  | some n => return n
  | none => fail

def hex4 : Scan Nat := do
  let a ← hexDigit
  let b ← hexDigit
  let c ← hexDigit
  let d ← hexDigit
  return ((a * 16 + b) * 16 + c) * 16 + d

def secondUnit : Scan Nat := do
  word "\\u"
  hex4

/-- The character of an escape with code units, after its `u`; none for half a surrogate pair. -/
def unicodeEscape : Scan (Option Char) := do
  let n ← hex4
  if 0xD800 ≤ n && n < 0xDC00 then
    let text ← rest
    match secondUnit text with
    | some (m, r) =>
      if 0xDC00 ≤ m && m < 0xE000 then
        set r
        return some (Char.ofNat (0x10000 + (n - 0xD800) * 0x400 + (m - 0xDC00)))
      else return none
    | none => return none
  else if 0xDC00 ≤ n && n < 0xE000 then return none
  else return some (Char.ofNat n)

/-- The character of an escape, after its backslash. -/
def escapeRest : Scan (Option Char) := do
  match ← next with
  | '"' => return some '"'
  | '\\' => return some '\\'
  | '/' => return some '/'
  | 'b' => return some (Char.ofNat 8)
  | 'f' => return some (Char.ofNat 12)
  | 'n' => return some '\n'
  | 'r' => return some '\r'
  | 't' => return some '\t'
  | 'u' => unicodeEscape
  | _ => fail

def stringChar : Scan (Option Char) := do
  match ← satisfy (fun c => c != '"' && 0x20 ≤ c.toNat) with
  | '\\' => escapeRest
  | c => return some c

/-- The text of a string; none if it holds half a surrogate pair. -/
def string : Scan (Option String) := do
  char '"'
  let cs ← many stringChar
  char '"'
  return (cs.mapM id).map String.ofList

/-- An integer if it fits 64 bits; negative zero is not an integer. -/
def integer (negative : Bool) (ds : List Char) : Json :=
  let n := Numeral.value ds
  if negative then
    if 0 < n && n ≤ Number.capacity 63 then .int (-(n : Int)) else .decimal ("-" ++ String.ofList ds)
  else if n < Number.capacity 64 then .int n
  else .decimal (String.ofList ds)

def number : Scan Json := do
  let negative ← tryWord "-"
  let ds ← run1 Char.isDigit
  if ds.head? == some '0' && ds.length != 1 then fail
  let fraction ← do
    if ← tryWord "." then pure ('.' :: (← run1 Char.isDigit)) else pure []
  let exponent ← do
    if ((← peek).any fun c => c == 'e' || c == 'E') then
      let _ ← next
      let sign ← run fun c => c == '+' || c == '-'
      if 1 < sign.length then fail
      pure ('e' :: sign ++ (← run1 Char.isDigit))
    else pure []
  if fraction.isEmpty && exponent.isEmpty then return integer negative ds
  else
    return .decimal (String.ofList ((if negative then ['-'] else []) ++ ds ++ fraction ++ exponent))

/-- Items between commas, up to a closing mark; the opening one has been read. -/
def separated {α : Type} (item : Scan α) (close : Char) : Scan (List α) := do
  spaces
  if ← tryWord close.toString then return []
  else
    let first ← item
    let more ← many do
      spaces
      char ','
      spaces
      item
    spaces
    char close
    return first :: more

def member (value : Scan Json) : Scan (String × Json) := do
  match ← string with
  | none => fail
  | some k =>
    spaces
    char ':'
    spaces
    return (k, ← value)

/-- A value in which arrays and objects nest less than `depth` deep. -/
def value : Nat → Scan Json
  | 0 => fail
  | depth + 1 => do
    if ← sees "\"" then
      match ← string with
      | some s => return .str s
      | none => return .unpaired
    else if ← tryWord "[" then return .arr (← separated (value depth) ']')
    else if ← tryWord "\x7b" then return .obj (← separated (member (value depth)) '\x7d')
    else if ← tryWord "null" then return .null
    else if ← tryWord "true" then return .bool true
    else if ← tryWord "false" then return .bool false
    else number

end Reader

def parse? (text : String) : Option Json :=
  let cs := text.toList
  whole? (do
    Reader.spaces
    let j ← Reader.value (cs.length + 1)
    Reader.spaces
    return j) cs

end Schematron.Json
