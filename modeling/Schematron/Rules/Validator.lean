import Schematron.Number.Basic

/-!
# Validators

A schema ready to be run: its patterns with their rules and tests, in which every expression is
known to be one that the XPath compiler accepts.
-/
namespace Schematron

/-- An expression that the XPath compiler has accepted. -/
structure Expression where
  source : String
  deriving DecidableEq, Repr, Inhabited

/-- A variable and the expression for its value. -/
structure Binding where
  name : String
  value : Expression
  deriving DecidableEq, Repr, Inhabited

/-- A part of a message. -/
inductive MessagePart where
  | text (s : String)
  /-- The value of an expression. -/
  | value (e : Expression)
  /-- The name of the node that an expression selects, or of the node at hand. -/
  | name (path : Option Expression)
  deriving DecidableEq, Repr, Inhabited

/-- When a test is reported. -/
inductive TestKind where
  /-- When it is false. -/
  | assertion
  /-- When it is true. -/
  | report
  deriving DecidableEq, Repr, Inhabited

/-- An assertion or a report. -/
structure Test where
  kind : TestKind
  id : Option String
  role : Option String
  flag : Option String
  test : Expression
  subject : Option Expression
  /-- The ids of the diagnostics to give. -/
  diagnostics : List String
  message : List MessagePart
  deriving DecidableEq, Repr, Inhabited

/-- The tests of the nodes that a selection gives. -/
structure Rule where
  id : Option String
  context : String
  selection : Expression
  role : Option String
  flag : Option String
  subject : Option Expression
  lets : List Binding
  tests : List Test
  deriving DecidableEq, Repr, Inhabited

/-- Rules of which at most one fires at a node. -/
structure Pattern where
  id : Option String
  name : Option String
  lets : List Binding
  rules : List Rule
  /-- The union of the selections of all rules; none without rules. -/
  selection : Option Expression
  deriving DecidableEq, Repr, Inhabited

/-- A schema ready to be run. -/
structure Validator where
  title : Option String
  schemaVersion : Option String
  /-- The phase in effect. -/
  phase : String
  namespaces : List (String × String)
  lets : List Binding
  patterns : List Pattern
  /-- The texts of diagnostics by id; of two with one id, the last one counts. -/
  diagnostics : List (String × List MessagePart)
  /-- The expression for the name of a node. -/
  nameOfNode : Expression
  deriving DecidableEq, Repr, Inhabited

namespace Validator

def ruleCount (v : Validator) : Nat := Number.total (v.patterns.map (·.rules.length))

def diagnostic? (v : Validator) (id : String) : Option (List MessagePart) :=
  (v.diagnostics.reverse.find? (·.1 == id)).map (·.2)

end Validator

end Schematron
