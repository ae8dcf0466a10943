import Schematron.Files.System
import Schematron.Text.Blank

/-!
# Lists of inputs

A list of documents has one path on each line. It ends at its end or at the first empty line; blanks
around a path mean nothing, and lines that start with `#` are comments. A line must be text, but
nothing is asked of what follows the first empty line.
-/
namespace Schematron.InputList

def lineFeed : UInt8 := 10

/-- The byte that may stand before the end of a line. -/
def carriageReturn : UInt8 := 13

/-- A line without the carriage return at its end. -/
def withoutReturn (line : Bytes) : Bytes :=
  if line.getLast? = some carriageReturn then line.dropLast else line

/-- The lines of a list; the last one need not end in a line feed. -/
def linesFrom (line : Bytes) : Bytes → List Bytes
  | [] => if line.isEmpty then [] else [line]
  | b :: bs => if b = lineFeed then withoutReturn line :: linesFrom [] bs else linesFrom (line ++ [b]) bs

/-- The path on a line, unless the line is blank or a comment. -/
def path? (line : String) : Option String :=
  let t := Text.trimmed line
  if t.isEmpty || t.toList.head? = some '#' then none else some t

/-- The paths on lines, up to the first empty one. -/
def ofLines : List Bytes → Except FileError (List String)
  | [] => .ok []
  | l :: ls =>
    if l.isEmpty then .ok []
    else
      match Utf8.decode l with
      | .error _ => .error .notText
      | .ok line => do return (path? line).toList ++ (← ofLines ls)

def read (data : Bytes) : Except FileError (List String) := ofLines (linesFrom [] data)

end Schematron.InputList
