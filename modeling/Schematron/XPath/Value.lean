/-!
# Values of expressions

The four types of XPath 1.0. A node is known by its path in the document; `/` is the document.
-/
namespace Schematron.XPath

/-- A node, known by its path. -/
abbrev NodePath := String

def documentPath : NodePath := "/"

/-- The value of an expression. -/
inductive Value where
  | boolean (b : Bool)
  | string (s : String)
  /-- A number in its string form. -/
  | number (text : String)
  /-- Nodes in document order and the text of the first one. -/
  | nodes (paths : List NodePath) (text : String)
  deriving DecidableEq, Repr, Inhabited

namespace Value

def toBool : Value → Bool
  | .boolean b => b
  | .string s => ! s.isEmpty
  | .number t => t != "0" && t != "NaN"
  | .nodes ps _ => ! ps.isEmpty

def toText : Value → String
  | .boolean b => if b then "true" else "false"
  | .string s => s
  | .number t => t
  | .nodes _ t => t

/-- The nodes of a node set; any other value has none. -/
def paths : Value → List NodePath
  | .nodes ps _ => ps
  | _ => []

end Value

/-- What names mean in an expression: namespaces by prefix and variables by name. -/
structure Environment where
  namespaceOf : String → Option String
  valueOf : String → Option Value

namespace Environment

def empty : Environment := ⟨fun _ => none, fun _ => none⟩

/-- Binds a prefix, replacing an earlier binding. -/
def bindNamespace (env : Environment) (pre uri : String) : Environment :=
  { env with namespaceOf := fun p => if p = pre then some uri else env.namespaceOf p }

/-- Binds a variable, replacing an earlier binding; without a value it is unbound. -/
def bindVariable (env : Environment) (name : String) (value : Option Value) : Environment :=
  { env with valueOf := fun n => if n = name then value else env.valueOf n }

end Environment

end Schematron.XPath
