import Schematron.Text.Scan
import Schematron.Xml.Character

/-!
# Markup

A document as the scanner sees it: an optional document type declaration with its entities, and a
list of tokens (start tags, end tags, raw text, character data). Comments and processing
instructions are read and dropped. Raw text and raw attribute values still hold their references;
`Xml.Reference` splits those.
-/
namespace Schematron.Xml
open Schematron.Text

/-- A name as written: the part before the colon (empty without a colon) and the rest. -/
structure RawName where
  pre : String
  localName : String
  deriving DecidableEq, Repr, Inhabited

/-- An attribute as written. -/
structure RawAttribute where
  name : RawName
  value : List Char
  deriving Repr, Inhabited

/-- One piece of element content. -/
inductive Token where
  | startTag (name : RawName) (attributes : List RawAttribute) (isEmpty : Bool)
  | endTag (name : RawName)
  | text (raw : List Char)
  | characterData (content : List Char)
  deriving Repr, Inhabited

/-- An internal entity: its name and its replacement text. -/
structure Entity where
  name : String
  value : List Char
  deriving Repr, Inhabited

namespace Scanner
open Scan

def spaces : Scan Unit := do let _ ← run isXmlSpace

/-- Skips white space, of which there must be some. -/
def spaces1 : Scan Unit := do let _ ← run1 isXmlSpace

/-- Takes a character outside any class. -/
def char (c : Char) : Scan Unit := do let _ ← satisfy (· == c)

def quote : Scan Char := satisfy fun c => c == '\'' || c == '"'

/-- A name, which may hold colons. -/
def name : Scan String := do
  let first ← satisfy isNameStart
  let more ← run isNameChar
  return String.ofList (first :: more)

/-- A run of name characters split at its only colon; each part starts as a name does, and the
part before the colon may be empty. -/
def rawName : Scan RawName := do
  let cs ← run isNameChar
  let before := cs.takeWhile (· != ':')
  let parts : List Char × List Char := match cs.dropWhile (· != ':') with
    | [] => ([], cs)
    | _ :: after => (before, after)
  let (pre, localName) := parts
  if localName.contains ':' then fail
  else if (pre.head?.all isNameStart) && (localName.head?.any isNameStart) then
    return ⟨String.ofList pre, String.ofList localName⟩
  else fail

/-- Text up to the first occurrence of a word, all of it allowed characters; takes the word too. -/
def charsThrough (w : String) : Scan (List Char) := do
  let cs ← through w
  if cs.all isXmlChar then return cs else fail

/-- A comment, after its opening mark: two hyphens stand only at its end. -/
def commentRest : Scan Unit := do
  let _ ← charsThrough "--"
  char '>'

/-- A processing instruction, after its opening mark. -/
def instructionRest : Scan Unit := do
  let _ ← name
  spaces
  let _ ← charsThrough "?>"

/-- Takes a comment or a processing instruction if one comes next. The declaration `<?xml ` is
allowed only at the very start of a document. -/
def dropped? : Scan Bool := do
  if ← sees "<?xml " then fail
  else if ← tryWord "<!--" then commentRest; return true
  else if ← tryWord "<?" then instructionRest; return true
  else return false

/-- Comments, processing instructions and white space between the large parts of a document. -/
def misc (cs : List Char) : Option (Unit × List Char) :=
  match dropped? (cs.dropWhile isXmlSpace) with
  | none => none
  | some (false, r) => some ((), r)
  | some (true, r) => if r.length < cs.length then misc r else none
termination_by cs.length

def equalsSign : Scan Unit := do spaces; char '='; spaces

/-- An attribute; its value holds no `<`. -/
def attributePair : Scan RawAttribute := do
  let n ← rawName
  equalsSign
  let q ← quote
  let value ← run fun c => isXmlChar c && c != q && c != '<'
  char q
  return ⟨n, value⟩

/-- The attributes of a start tag, each after white space. -/
def attributes : Scan (List RawAttribute) :=
  many do
    spaces1
    attributePair

/-- A start tag, after its opening angle bracket. -/
def startTagRest : Scan Token := do
  let n ← rawName
  let as ← attributes
  spaces
  if ← tryWord "/>" then return .startTag n as true
  else
    char '>'
    return .startTag n as false

/-- An end tag, after its opening mark. -/
def endTagRest : Scan Token := do
  let n ← rawName
  spaces
  char '>'
  return .endTag n

/-- Raw text up to the next tag, in which `]]>` must not appear. -/
def rawText : Scan Token := do
  let cs ← run1 (· != '<')
  if cs.all isXmlChar && (splitBefore "]]>".toList cs).isNone then return .text cs else fail

/-- One token of element content; none for a comment or an instruction. -/
def token? : Scan (Option Token) := do
  if ← dropped? then return none
  else if ← tryWord "<![CDATA[" then
    return some (.characterData (← charsThrough "]]>"))
  else if ← tryWord "</" then return some (← endTagRest)
  else if ← tryWord "<" then return some (← startTagRest)
  else return some (← rawText)

/-- Tokens up to the end tag that closes one level more than `depth` start tags have opened, or to
the end of the text. -/
def content (depth : Nat) (cs : List Char) : Option (List Token × List Char) :=
  if cs.isEmpty then some ([], [])
  else
    match token? cs with
    | none => none
    | some (t, r) =>
      if r.length < cs.length then
        match t with
        | none => content depth r
        | some (.endTag n) =>
          match depth with
          | 0 => some ([.endTag n], r)
          | d + 1 => (content d r).map fun (ts, r') => (.endTag n :: ts, r')
        | some (.startTag n as false) =>
          (content (depth + 1) r).map fun (ts, r') => (.startTag n as false :: ts, r')
        | some t => (content depth r).map fun (ts, r') => (t :: ts, r')
      else none
termination_by cs.length

/-- The root element, if an angle bracket comes next. -/
def root : Scan (List Token) := do
  if ← tryWord "<" then
    match ← startTagRest with
    | .startTag n as true => return [.startTag n as true]
    | t => return t :: (← content 0)
  else return []

/-- A quoted literal of any characters. -/
def literal : Scan (List Char) := do
  let q ← quote
  let cs ← run (· != q)
  char q
  return cs

/-- An external identifier if one comes next. -/
def externalId? : Scan Bool := do
  if ← tryWord "SYSTEM" then
    spaces1
    let _ ← literal
    return true
  else if ← tryWord "PUBLIC" then
    spaces1
    let _ ← literal
    spaces1
    let _ ← literal
    return true
  else return false

/-- An entity declaration, after its opening word; an external entity declares nothing. -/
def entityRest : Scan (List Entity) := do
  spaces1
  let isGeneral := ! (← tryWord "%")
  if ! isGeneral then spaces1
  let n ← name
  spaces1
  let declared ← do
    if ← externalId? then
      if isGeneral then
        spaces
        if ← tryWord "NDATA" then
          spaces1
          let _ ← name
      pure []
    else pure [⟨n, ← literal⟩]
  spaces
  char '>'
  return declared

/-- A declaration that is read over, up to its closing angle bracket. -/
def otherDeclaration : Scan Unit := do
  if ← tryWord "<!ELEMENT" then close
  else if ← tryWord "<!ATTLIST" then close
  else if ← tryWord "<!NOTATION" then close
  else fail
where
  /-- The rest of the declaration. -/
  close : Scan Unit := do let _ ← through ">"

/-- One item of the internal subset, with the entities that it declares. -/
def subsetItem : Scan (List Entity) := do
  if ← tryWord "<!ENTITY" then entityRest
  else if ← dropped? then return []
  else if (← run isXmlSpace).isEmpty then
    otherDeclaration
    return []
  else return []

/-- A document type declaration, after its opening word. -/
def doctypeRest : Scan (List Entity) := do
  spaces1
  let _ ← name
  spaces
  let _ ← externalId?
  spaces
  if ← tryWord ">" then return []
  else
    char '['
    let items ← many subsetItem
    char ']'
    spaces
    char '>'
    return items.flatten

/-- The declaration at the start of a document, after its opening word. -/
def declarationRest : Scan Unit := do
  spaces
  if ! (← sees "version") then fail
  let _ ← attributePair
  gap
  if ← sees "encoding" then
    let _ ← attributePair
    gap
  if ← sees "standalone" then
    let _ ← attributePair
  spaces
  word "?>"
where
  /-- White space, which may be missing only before the end of the declaration. -/
  gap : Scan Unit := do
    if ! (← sees "?>") then spaces1

/-- A document: its entities and the tokens of its root element. -/
def document : Scan (List Entity × List Token) := do
  let _ ← tryWord "\uFEFF"
  if ← sees "<?xml " then
    word "<?xml"
    declarationRest
  misc
  let entities ← do
    if ← tryWord "<!DOCTYPE" then doctypeRest else pure []
  misc
  let tokens ← root
  misc
  return (entities, tokens)

end Scanner

end Schematron.Xml
