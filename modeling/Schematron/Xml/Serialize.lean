import Schematron.Xml.Tree

/-!
# Writing trees

A tree is written as a document with an indentation of two spaces a level. A tag starts on a line
of its own unless it directly follows text. White space is therefore added only beside child
elements: an element without child elements keeps exactly its text.
-/
namespace Schematron.Xml

def escapeChar : Char → String
  | '<' => "&lt;"
  | '>' => "&gt;"
  | '&' => "&amp;"
  | '\'' => "&apos;"
  | '"' => "&quot;"
  | c => c.toString

def escape (s : String) : String := String.join (s.toList.map escapeChar)

def Namespace.render (n : Namespace) : String :=
  let key := match n.namespacePrefix with
    | some p => "xmlns:" ++ p
    | none => "xmlns"
  " " ++ key ++ "=\"" ++ escape n.uri ++ "\""

def Attribute.render (a : Attribute) : String :=
  " " ++ a.name.render ++ "=\"" ++ escape a.value ++ "\""

/-- A tag without its brackets: declarations come before attributes. -/
def Tag.render (t : Tag) : String :=
  t.name.render ++ String.join (t.namespaces.map (·.render)) ++
    String.join (t.attributes.map (·.render))

/-- The line break and the indentation before a tag; nothing directly after text. -/
def lineStart (depth : Nat) (afterText : Bool) : String :=
  if afterText then "" else "\n" ++ String.ofList (List.replicate (2 * depth) ' ')

def Node.isText : Node → Bool
  | .text _ => true
  | .element .. => false

mutual

/-- A node at a depth, directly after text or not. -/
def Node.render (depth : Nat) (afterText : Bool) : Node → String
  | .text s => escape s
  | .element t [] => lineStart depth afterText ++ "<" ++ t.render ++ "/>"
  | .element t (c :: cs) =>
    lineStart depth afterText ++ "<" ++ t.render ++ ">" ++
      Node.renderAll (depth + 1) false (c :: cs) ++
      lineStart depth ((c :: cs).getLast?.any (·.isText)) ++ "</" ++ t.name.render ++ ">"

def Node.renderAll (depth : Nat) (afterText : Bool) : List Node → String
  | [] => ""
  | n :: ns => n.render depth afterText ++ Node.renderAll depth n.isText ns

end

/-- The first line of every written document. -/
def declaration : String := "<?xml version=\"1.0\" encoding=\"UTF-8\"?>"

def Element.render (e : Element) : String := declaration ++ Node.render 0 false e.toNode

end Schematron.Xml
