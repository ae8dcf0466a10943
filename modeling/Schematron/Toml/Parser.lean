import Schematron.Toml.Scalar
import Schematron.Toml.Table

/-!
# Reading TOML

A document is read line by line into statements, and the statements build up a table. `parse?`
gives the whole document as a JSON object.
-/
namespace Schematron.Toml
open Schematron.Text Schematron.Text.Scan

/-- How deep arrays and tables written as values may nest. -/
def maxDepth : Nat := 80

/-- A comment, up to the end of its line. -/
def comment : Scan Unit := do
  char '#'
  let _ ← run isPlain

/-- Blanks, comments and line ends. -/
def gap : Scan Unit := do
  let _ ← many do
    match ← peek with
    | some '#' => comment
    | some ' ' | some '\t' => blanks
    | _ => let _ ← newline

def simpleKey : Scan String := do
  match ← peek with
  | some '"' => basicString
  | some '\'' => literalString
  | _ => return String.ofList (← run1 fun c => c.isAlphanum || c == '-' || c == '_')

/-- A key: its parts with dots between them. -/
def key : Scan (List String × String) := do
  let first ← simpleKey
  let more ← many do
    blanks
    char '.'
    blanks
    simpleKey
  blanks
  let parts := first :: more
  return (parts.dropLast, parts.getLast (by simp [parts]))

def pair (value : Scan Json) : Scan ((List String × String) × Json) := do
  let k ← key
  char '='
  blanks
  return (k, ← value)

/-- Items between commas and a closing mark, after the opening one. A comma may follow the last. -/
def listed {α : Type} (item : Scan α) (close : String) : Scan (List α) := do
  gap
  if ← tryWord close then return []
  else
    let first ← item
    let more ← many do
      gap
      char ','
      gap
      item
    gap
    let _ ← tryWord ","
    gap
    word close
    return first :: more

def tableOf (pairs : List ((List String × String) × Json)) : Option Table :=
  pairs.foldlM (fun es p => Table.define p.1.1 p.1.2 p.2 .header es) []

/-- A value in which arrays and tables nest at most so deep. -/
def anyValue : Nat → Scan Json
  | 0 => do
    match ← peek with
    | some '"' | some '\'' => return .str (← string)
    | _ => bare
  | depth + 1 => do
    match ← peek with
    | some '"' | some '\'' => return .str (← string)
    | some '[' =>
      char '['
      return .arr (← listed (anyValue depth) "]")
    | some '\x7b' =>
      char '\x7b'
      match tableOf (← listed (pair (anyValue depth)) "\x7d") with
      | some es => return .obj (membersOf es)
      | none => fail
    | _ => bare

/-- What a line says. -/
inductive Statement where
  | header (path : List String) (key : String)
  | element (path : List String) (key : String)
  | pair (path : List String) (key : String) (value : Json)

def headerRest (close : String) : Scan (List String × String) := do
  blanks
  let k ← key
  word close
  return k

/-- The statement of a line, if it has one. -/
def statement : Scan (Option Statement) := do
  match ← peek with
  | none | some '\n' | some '\r' | some '#' => return none
  | some '[' =>
    if ← tryWord "[[" then
      let (path, k) ← headerRest "]]"
      return some (.element path k)
    else
      char '['
      let (path, k) ← headerRest "]"
      return some (.header path k)
  | _ =>
    let ((path, k), v) ← pair (anyValue maxDepth)
    return some (.pair path k v)

/-- A line without its end. -/
def line : Scan (Option Statement) := do
  blanks
  let s ← statement
  blanks
  if ← sees "#" then comment
  return s

/-- All lines of a document. A byte order mark may come first. -/
def document : Scan (List Statement) := do
  let _ ← tryWord "\uFEFF"
  let lines ← many do
    let s ← line
    let _ ← newline
    return s
  return (lines ++ [← line]).filterMap id

/-- A document that is being built up: its table, and the path of the last header. -/
structure Draft where
  table : Table := []
  current : List String := []

def Draft.add (d : Draft) : Statement → Option Draft
  | .header path k => (d.table.openTable path k).map fun t => ⟨t, path ++ [k]⟩
  | .element path k => (d.table.openElement path k).map fun t => ⟨t, path ++ [k]⟩
  | .pair path k v =>
    (Table.within false (Table.define path k v) d.current .header d.table).map fun t =>
      { d with table := t }

def parse? (text : String) : Option Json := do
  let statements ← whole? document text.toList
  let draft ← statements.foldlM Draft.add {}
  return .obj (membersOf draft.table)

end Schematron.Toml
