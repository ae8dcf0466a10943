import Schematron.Text.Blank

/-!
# Selections

The context of a rule is a pattern that nodes match; its selection is an expression that gives those
nodes. A context is a union of branches, and each branch that is not rooted is looked for everywhere
in the document.
-/
namespace Schematron.Selection
open Text

/-- Where a scan of an expression is: the quotation mark of the literal that it is in, if it is in
one, and how many brackets are open. -/
structure Place where
  quote : Option Char := none
  depth : Nat := 0
  deriving DecidableEq, Repr, Inhabited

def Place.isTop (p : Place) : Bool := p.quote.isNone && p.depth == 0

/-- The place after one more character. -/
def Place.step (p : Place) (c : Char) : Place :=
  match p.quote with
  | some q => if c = q then { p with quote := none } else p
  | none =>
    if c = '\'' || c = '"' then { p with quote := some c }
    else if c = '(' || c = '[' then { p with depth := p.depth + 1 }
    else if c = ')' || c = ']' then { p with depth := p.depth - 1 }
    else p

/-- The branches of an expression from a place on: its parts between bars outside literals and
brackets. -/
def branchesFrom (p : Place) : List Char → List (List Char)
  | [] => [[]]
  | c :: cs =>
    if c = '|' && p.isTop then [] :: branchesFrom p cs
    else match branchesFrom (p.step c) cs with
      | [] => [[c]]
      | b :: bs => (c :: b) :: bs

def branches (cs : List Char) : List (List Char) := branchesFrom {} cs

def isRooted (branch : List Char) : Bool := "/".toList.isPrefixOf branch || "id(".toList.isPrefixOf branch

def ofBranch (branch : List Char) : List Char :=
  let b := trim branch
  if isRooted b then b else '/' :: '/' :: b

def joinBranches : List (List Char) → List Char
  | [] => []
  | [b] => b
  | b :: bs => b ++ [' ', '|', ' '] ++ joinBranches bs

def ofContext (context : String) : String :=
  String.ofList (joinBranches ((branches context.toList).map ofBranch))

end Schematron.Selection
