import Schematron.Json.Basic

/-!
# Reading records from JSON

A record is written as an object, in which unknown members are ignored and a known member appears
at most once, or as an array of its fields in order.
-/
namespace Schematron.Json

/-- The values of a member that appears at most once. -/
def member? (ms : List (String × Json)) (key : String) : Option (Option Json) :=
  match ms.filter (·.1 == key) with
  | [] => some none
  | [(_, j)] => some (some j)
  | _ => none

/-- The fields of a record in the order of `names`. An array gives the first fields, and all of them
unless fields may be missing from its end. -/
def fields? (names : List String) (mayEndEarly : Bool) : Json → Option (List (Option Json))
  | .obj ms => names.mapM (member? ms)
  | .arr js =>
    if js.length = names.length || (mayEndEarly && js.length < names.length) then
      some (js.map some ++ List.replicate (names.length - js.length) none)
    else none
  | _ => none

/-- A field that must be there. -/
def required? {α : Type} (read : Json → Option α) (field : Option Json) : Option α :=
  field.bind read

/-- A field that may be missing or `null`. -/
def optional? {α : Type} (read : Json → Option α) : Option Json → Option (Option α)
  | none | some .null => some none
  | some j => (read j).map some

def withDefault? {α : Type} (read : Json → Option α) (value : α) : Option Json → Option α
  | none => some value
  | some j => read j

def natBelow? (bound : Nat) (j : Json) : Option Nat := j.nat?.filter (· < bound)

def list? {α : Type} (read : Json → Option α) : Json → Option (List α)
  | .arr js => js.mapM read
  | _ => none

/-- One of a fixed set of names: a string, or an object with the name as its only member. -/
def choice? {α : Type} (ofName : String → Option α) : Json → Option α
  | .str s => ofName s
  | .obj [(s, .null)] => ofName s
  | _ => none

end Schematron.Json
