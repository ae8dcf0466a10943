/-!
# Paths

Paths are texts with slashes between their parts. Empty parts and single dots mean nothing; a
double dot is kept, since the directory before it may be a link.
-/
namespace Schematron.Path

def split : List Char → List (List Char)
  | [] => [[]]
  | c :: cs =>
    if c = '/' then [] :: split cs
    else match split cs with
      | [] => [[c]]
      | p :: ps => (c :: p) :: ps

def parts (path : String) : List String :=
  ((split path.toList).map String.ofList).filter fun p => ! p.isEmpty && p != "."

/-- Whether a text comes before another one, by the numbers of their characters. -/
def textBefore (s t : String) : Bool := s.toList.lex t.toList fun c d => c.toNat < d.toNat

/-- Whether a path comes before another one, by its parts. -/
def isBefore (p q : String) : Bool := (parts p).lex (parts q) textBefore

def isAbsolute (path : String) : Bool := path.toList.head? == some '/'

def ofParts (ps : List String) : String :=
  if ps.isEmpty then "/" else String.join (ps.map ("/" ++ ·))

/-- A path below a directory, unless it starts at the root. -/
def join (directory path : String) : String :=
  if isAbsolute path || directory.isEmpty then path
  else if directory.toList.getLast? == some '/' then directory ++ path
  else directory ++ "/" ++ path

/-- Whether a path starts with exactly two slashes, which are kept. -/
def hasDoubleRoot (path : String) : Bool :=
  match path.toList with
  | '/' :: '/' :: c :: _ => c != '/'
  | ['/', '/'] => true
  | _ => false

/-- The path from the root, for a current directory; the empty path has none. -/
def absolute? (current path : String) : Option String :=
  if path.isEmpty then none
  else
    let ps := parts path
    let whole :=
      if hasDoubleRoot path then "/" ++ ofParts ps
      else if isAbsolute path then ofParts ps
      else ofParts (parts current ++ ps)
    some (if path.toList.getLast? == some '/' && whole.toList.getLast? != some '/' then whole ++ "/"
      else whole)

/-- The last part of a path, unless that is a double dot. -/
def fileName? (path : String) : Option String := (parts path).getLast?.filter (· != "..")

/-- The part of a file name after its last dot; a name that starts with its only dot has none. -/
def extension? (path : String) : Option String := do
  let name ← fileName? path
  let cs := name.toList
  let after := cs.reverse.takeWhile (· != '.')
  if cs.length ≤ after.length + 1 then none else some (String.ofList after.reverse)

end Schematron.Path
