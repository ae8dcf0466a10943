import Schematron.Json.Basic

/-!
# TOML tables

How headers and dotted keys build up the tables of a document. A table is defined once: by a header
of its own, by dotted keys, or as a value. `Table.define` and its companions refuse whatever would
define one again.
-/
namespace Schematron.Toml

/-- How a table came to be. -/
inductive Origin where
  /-- By a header of its own, or as the whole document. -/
  | header
  /-- As a part of the path of another header. -/
  | passing
  /-- By dotted keys. -/
  | dotted
  deriving DecidableEq, Repr, Inhabited

/-- What a key stands for. -/
inductive Item where
  /-- A value, which can not be extended. -/
  | value (j : Json)
  | table (origin : Origin) (entries : List (String × Item))
  /-- A list of tables, each with a header. -/
  | tables (elements : List (List (String × Item)))

abbrev Table := List (String × Item)

namespace Table

/-- Replaces what a key stands for, or adds the key. -/
def alter (key : String) (f : Option Item → Option Item) : Table → Option Table
  | [] => (f none).map fun i => [(key, i)]
  | (k, i) :: es =>
    if k = key then (f (some i)).map fun i => (k, i) :: es
    else (alter key f es).map ((k, i) :: ·)

/-- Changes the last element of a list. -/
def alterLast {α : Type} (f : α → Option α) : List α → Option (List α)
  | [] => none
  | [a] => (f a).map fun a => [a]
  | a :: as => (alterLast f as).map (a :: ·)

/-- Changes the table that a path leads to, making the tables on the way. The path of a dotted key
does not lead into a table that has a header. -/
def within (dotted : Bool) (change : Origin → Table → Option Table) :
    List String → Origin → Table → Option Table
  | [], origin, es => change origin es
  | key :: path, _, es => alter key (fun
    | none =>
      let origin := if dotted then .dotted else .passing
      (within dotted change path origin []).map (.table origin)
    | some (.table origin inner) =>
      if dotted && origin == .header then none
      else (within dotted change path origin inner).map (.table origin)
    | some (.tables elements) =>
      (alterLast (within dotted change path .header) elements).map .tables
    | some (.value _) => none) es

def openTable (path : List String) (key : String) (document : Table) : Option Table :=
  within false (fun _ => alter key fun
    | none => some (.table .header [])
    | some (.table .passing inner) => some (.table .header inner)
    | some _ => none) path .header document

def openElement (path : List String) (key : String) (document : Table) : Option Table :=
  within false (fun _ => alter key fun
    | none => some (.tables [[]])
    | some (.tables elements) => some (.tables (elements ++ [[]]))
    | some _ => none) path .header document

/-- Defines a key of a table. A dotted key belongs to a table that dotted keys have made. -/
def define (path : List String) (key : String) (j : Json) (origin : Origin) (es : Table) :
    Option Table :=
  within true (fun origin inner =>
    if (origin == .dotted) == path.isEmpty then none
    else alter key (fun
      | none => some (.value j)
      | some _ => none) inner) path origin es

end Table

mutual
def Item.toJson : Item → Json
  | .value j => j
  | .table _ entries => .obj (membersOf entries)
  | .tables elements => .arr (objectsOf elements)

def membersOf : List (String × Item) → List (String × Json)
  | [] => []
  | (k, i) :: es => (k, i.toJson) :: membersOf es

def objectsOf : List (List (String × Item)) → List Json
  | [] => []
  | es :: ess => .obj (membersOf es) :: objectsOf ess
end

end Schematron.Toml
