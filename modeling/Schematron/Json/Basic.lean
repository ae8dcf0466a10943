/-!
# JSON values

A value keeps the members of an object in the order in which they are written. An integer that fits
64 bits, signed or unsigned, is told apart from any other number, which is kept as its text.
-/
namespace Schematron

/-- A JSON value. -/
inductive Json where
  | null
  | bool (b : Bool)
  | int (n : Int)
  /-- A number with a fraction or an exponent, or an integer that does not fit 64 bits. -/
  | decimal (literal : String)
  | str (s : String)
  /-- A string that holds half of a surrogate pair, so that it is not a text. -/
  | unpaired
  | arr (items : List Json)
  | obj (members : List (String × Json))
  deriving Repr, Inhabited, BEq

namespace Json

/-- The value of a member; that of the last one if the name is repeated. -/
def get? (j : Json) (key : String) : Option Json :=
  match j with
  | .obj ms => (ms.reverse.find? (·.1 == key)).map (·.2)
  | _ => none

/-- The value of a member, `null` if there is none. -/
def get (j : Json) (key : String) : Json := (j.get? key).getD .null

def str? : Json → Option String
  | .str s => some s
  | _ => none

/-- An integer that is not negative. -/
def nat? : Json → Option Nat
  | .int (.ofNat n) => some n
  | _ => none

def bool? : Json → Option Bool
  | .bool b => some b
  | _ => none

/-- The items of an array, none for any other value. -/
def items : Json → List Json
  | .arr js => js
  | _ => []

/-- The members of an object, none for any other value. -/
def members : Json → List (String × Json)
  | .obj ms => ms
  | _ => []

/-- Whether this is `null`. -/
def isNull : Json → Bool
  | .null => true
  | _ => false

/-- A value that may be missing. -/
def ofOption {α : Type} (f : α → Json) : Option α → Json
  | some a => f a
  | none => .null

def optStr (s : Option String) : Json := ofOption .str s

def nat (n : Nat) : Json := .int n

def strs (ss : List String) : Json := .arr (ss.map .str)

end Json

end Schematron
