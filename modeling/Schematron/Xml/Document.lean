import Schematron.Xml.Reference
import Schematron.Xml.Tree

/-!
# Documents

A document as it was read: every element knows all namespace bindings in scope at it, in the order
in which a prefix is looked up (its own declarations, then those it inherits and does not
redeclare). From a document, elements are copied out as trees: `Document.tree` for the root,
`Element.ofScoped` for any element.

Reading adds the tokens one by one to the elements that are open. Entities are replaced while they
are read; they may nest ten deep, and one reference in the document may cause at most 255 others.
-/
namespace Schematron.Xml
open Schematron.Text

/-- The namespace of names with the prefix `xml`. -/
def xmlUri : String := "http://www.w3.org/XML/1998/namespace"

def xmlnsUri : String := "http://www.w3.org/2000/xmlns/"

/-- A tag with all namespace bindings in scope. -/
structure ScopedTag where
  name : QName
  scope : List Namespace
  attributes : List Attribute
  deriving Repr, Inhabited

/-- A node of a document as it was read. -/
inductive ScopedNode where
  | element (tag : ScopedTag) (children : List ScopedNode)
  | text (content : String)
  deriving Repr, Inhabited

/-- An element of a document as it was read. -/
structure ScopedElement where
  tag : ScopedTag
  children : List ScopedNode
  deriving Repr, Inhabited

/-- A document: its root element. -/
structure Document where
  root : ScopedElement
  deriving Repr, Inhabited

mutual

/-- A node as part of a tree, below an element with the given bindings in scope: only declarations
that differ from those bindings are kept. Neighbouring texts are joined. -/
def ScopedNode.toTree (inherited : List Namespace) : ScopedNode → Node
  | .text s => .text s
  | .element t cs =>
    .element ⟨t.name, t.scope.filter (! inherited.contains ·), t.attributes⟩
      (ScopedNode.toTrees t.scope [] cs)

/-- The children of an element, added after those that are done. -/
def ScopedNode.toTrees (inherited : List Namespace) (done : List Node) :
    List ScopedNode → List Node
  | [] => done
  | .text s :: ns => ScopedNode.toTrees inherited (Node.appendText s done) ns
  | .element t cs :: ns =>
    ScopedNode.toTrees inherited (done ++ [ScopedNode.toTree inherited (.element t cs)]) ns

end

/-- A copy of an element that declares every namespace in scope at it. -/
def Element.ofScoped (e : ScopedElement) : Element :=
  ⟨⟨e.tag.name, e.tag.scope, e.tag.attributes⟩, ScopedNode.toTrees e.tag.scope [] e.children⟩

mutual

/-- The elements of a node in document order, the node itself first. -/
def ScopedNode.elements : ScopedNode → List ScopedElement
  | .text _ => []
  | .element t cs => ⟨t, cs⟩ :: ScopedNode.elementsOf cs

def ScopedNode.elementsOf : List ScopedNode → List ScopedElement
  | [] => []
  | n :: ns => n.elements ++ ScopedNode.elementsOf ns

end

/-- The value of an attribute in no namespace. -/
def ScopedElement.attr (e : ScopedElement) (localName : String) : Option String :=
  (e.tag.attributes.find? fun a => a.name.isPlain localName).map (·.value)

namespace Document

def tree (d : Document) : Element := .ofScoped d.root

/-- All elements in document order, the root first. -/
def elements (d : Document) : List ScopedElement :=
  ScopedNode.elements (.element d.root.tag d.root.children)

/-- The first element, in document order, with the given `id`. -/
def elementById (d : Document) (id : String) : Option ScopedElement :=
  d.elements.find? fun e => e.attr "id" == some id

/-- The ids of all elements, in document order. -/
def ids (d : Document) : List String := d.elements.filterMap (·.attr "id")

theorem mem_ids_of_elementById {d : Document} {id : String} {e : ScopedElement}
    (h : d.elementById id = some e) : id ∈ d.ids := by
  have hid : e.attr "id" = some id := by simpa using List.find?_some h
  exact List.mem_filterMap.2 ⟨e, List.mem_of_find?_eq_some h, hid⟩

end Document

/-- An element whose end tag has not been read. -/
structure OpenElement where
  written : RawName
  tag : ScopedTag
  /-- The children read so far, the last one first. -/
  done : List ScopedNode
  deriving Inhabited

/-- What has been read of a document. -/
structure Reading where
  /-- The open elements, the innermost one first. -/
  opened : List OpenElement := []
  /-- The finished nodes outside all elements, the last one first. -/
  top : List ScopedNode := []
  /-- How many references the current reference of the document has caused. -/
  references : Nat := 0
  deriving Inhabited

namespace Reading

def add (n : ScopedNode) (r : Reading) : Reading :=
  match r.opened with
  | [] => { r with top := n :: r.top }
  | o :: os => { r with opened := { o with done := n :: o.done } :: os }

def scope (r : Reading) : List Namespace :=
  match r.opened with
  | [] => []
  | o :: _ => o.tag.scope

def countReference (r : Reading) : Option Reading :=
  if r.references < 255 then some { r with references := r.references + 1 } else none

end Reading

/-- The character that a plain character of an attribute value stands for, given what follows: a
line end or a tab becomes a space, and a carriage return before a line feed vanishes. -/
def attributeChar (c : Char) (next : Option Piece) : List Char :=
  match c, next with
  | '\r', some (.plain '\n') => []
  | '\r', _ | '\n', _ | '\t', _ => [' ']
  | c, _ => [c]

/-- The value of pieces of an attribute, with the references counted so far. Inside an entity
(`inEntity`) a reference to `<` is refused and a reference to white space counts as a space. -/
def attributeValue (inEntity : Bool) (expand : String → Reading → Option (List Char × Reading)) :
    List Piece → Reading → Option (List Char × Reading)
  | [], r => some ([], r)
  | .plain c :: ps, r => do
    let (cs, r) ← attributeValue inEntity expand ps r
    return (attributeChar c ps.head? ++ cs, r)
  | .reference c :: ps, r => do
    if inEntity && c == '<' then failure
    let (cs, r) ← attributeValue inEntity expand ps r
    return ((if inEntity then attributeChar c none else [c]) ++ cs, r)
  | .entity n :: ps, r => do
    let (value, r) ← expand n r
    let (cs, r) ← attributeValue inEntity expand ps r
    return (value ++ cs, r)

/-- The value of an entity inside an attribute value; `left` more levels may nest in it. -/
def attributeEntity (entities : List Entity) :
    Nat → String → Reading → Option (List Char × Reading)
  | 0, _, _ => none
  | left + 1, name, r => do
    let e ← entities.find? (·.name == name)
    let ps ← Piece.ofRaw? e.value
    attributeValue true (fun n r => r.countReference.bind (attributeEntity entities left n)) ps r

/-- Adds a declaration to those of one start tag, unless it is one that no document may make. -/
def declare? (n : RawName) (value : String) (own : List Namespace) : Option (List Namespace) :=
  if n.pre == "xmlns" then
    if value == xmlnsUri then none
    else if n.localName == "xml" then if value == xmlUri then some own else none
    else if value == xmlUri then none
    else if own.any (·.namespacePrefix == some n.localName) then none
    else some (own ++ [⟨some n.localName, value⟩])
  else if value == xmlUri || value == xmlnsUri then none
  else some (own ++ [⟨none, value⟩])

def RawName.isDeclaration (n : RawName) : Bool := n.pre == "xmlns" || n.localName == "xmlns"

/-- The bindings in scope at an element: its own declarations, then what it inherits. Only the first
binding of a prefix is inherited, unless there are no declarations. -/
def scopeWith (own inherited : List Namespace) : List Namespace :=
  if own.isEmpty then inherited
  else inherited.foldl (fun scope m =>
    if scope.any (·.namespacePrefix == m.namespacePrefix) then scope else scope ++ [m]) own

/-- The namespace that a written prefix is bound to; the empty prefix may be unbound. -/
def resolve? (scope : List Namespace) (pre : String) : Option (Option String) :=
  match scope.find? (·.namespacePrefix == if pre.isEmpty then none else some pre) with
  | some m => some (some m.uri)
  | none => if pre.isEmpty then some none else none

/-- The name of a namespace in scope with its prefix: the first prefix bound to it. -/
def nameIn (scope : List Namespace) (uri : Option String) (localName : String) : QName :=
  match uri with
  | none => .plain localName
  | some u =>
    if u == xmlUri then ⟨some u, some "xml", localName⟩
    else ⟨some u, (scope.find? (·.uri == u)).bind (·.namespacePrefix), localName⟩

/-- The expanded name of an attribute; without a prefix it has no namespace. -/
def attributeName? (scope : List Namespace) (n : RawName) : Option QName :=
  if n.pre == "xml" then some (nameIn scope (some xmlUri) n.localName)
  else if n.pre.isEmpty then some (.plain n.localName)
  else (resolve? scope n.pre).map fun uri => nameIn scope uri n.localName

/-- The attributes of a start tag; none if two have the same expanded name. -/
def attributes? (scope : List Namespace) :
    List Attribute → List (RawName × String) → Option (List Attribute)
  | done, [] => some done
  | done, (n, value) :: rest => do
    let q ← attributeName? scope n
    if done.any fun a =>
        a.name.namespaceUri == q.namespaceUri && a.name.localName == q.localName then failure
    attributes? scope (done ++ [⟨q, value⟩]) rest

def attributeValues (value : List Char → Reading → Option (List Char × Reading)) :
    List RawAttribute → Reading → Option (List (RawName × String) × Reading)
  | [], r => some ([], r)
  | a :: as, r => do
    let (cs, r) ← value a.value r
    let (rest, r) ← attributeValues value as r
    return ((a.name, String.ofList cs) :: rest, r)

def scopedTag? (inherited : List Namespace) (n : RawName) (values : List (RawName × String)) :
    Option ScopedTag := do
  if n.pre == "xmlns" then failure
  let own ← (values.filter (·.1.isDeclaration)).foldlM (fun own (m, v) => declare? m v own) []
  let scope := scopeWith own inherited
  let uri ← resolve? scope n.pre
  let as ← attributes? scope [] (values.filter (! ·.1.isDeclaration))
  return ⟨nameIn scope uri n.localName, scope, as⟩

/-- Text that is being read, the last character first, with the rule for line ends: a carriage
return becomes a line feed once it is known that no line feed follows it. -/
def pushText (buffer : List Char) (c : Char) (isLast : Bool) : List Char :=
  match buffer with
  | '\r' :: before =>
    let buffer := '\n' :: before
    if isLast && c == '\r' then '\n' :: buffer
    else if c == '\n' then buffer
    else c :: buffer
  | _ => if isLast && c == '\r' then '\n' :: buffer else c :: buffer

/-- Adds the text in the buffer, if there is any. -/
def Reading.flush (buffer : List Char) (r : Reading) : Reading :=
  if buffer.isEmpty then r else r.add (.text (String.ofList buffer.reverse))

/-- Adds pieces of text. A character from a reference in the document itself is taken as it is, and
so is the character after it (`asIs`). -/
def addPieces (inEntity : Bool) (expand : String → Reading → Option Reading) :
    (asIs : Bool) → (buffer : List Char) → List Piece → Reading → Option Reading
  | _, buffer, [], r => some (r.flush buffer)
  | asIs, buffer, .plain c :: ps, r =>
    addPieces inEntity expand false
      (if asIs then c :: buffer else pushText buffer c ps.isEmpty) ps r
  | asIs, buffer, .reference c :: ps, r =>
    if inEntity then addPieces inEntity expand asIs (pushText buffer c ps.isEmpty) ps r
    else addPieces inEntity expand true (c :: buffer) ps r
  | _, buffer, .entity n :: ps, r => do
    let r ← expand n (r.flush buffer)
    addPieces inEntity expand false [] ps r

def normalizeLines : List Char → List Char
  | '\r' :: '\n' :: cs => '\n' :: normalizeLines cs
  | '\r' :: cs => '\n' :: normalizeLines cs
  | c :: cs => c :: normalizeLines cs
  | [] => []

/-- How references are replaced where tokens are added. -/
structure Expansion where
  inEntity : Bool
  inText : String → Reading → Option Reading
  inAttribute : String → Reading → Option (List Char × Reading)

def addToken (x : Expansion) (r : Reading) : Token → Option Reading
  | .characterData cs => some (r.add (.text (String.ofList (normalizeLines cs))))
  | .text raw => do addPieces x.inEntity x.inText false [] (← Piece.ofRaw? raw) r
  | .startTag n as isEmpty => do
    let value := fun raw r => do
      attributeValue x.inEntity x.inAttribute (← Piece.ofRaw? raw) r
    let (values, r) ← attributeValues value as r
    let tag ← scopedTag? r.scope n values
    return if isEmpty then r.add (.element tag []) else { r with opened := ⟨n, tag, []⟩ :: r.opened }
  | .endTag n =>
    match r.opened with
    | [] => none
    | o :: os =>
      if o.written = n then
        some (Reading.add (.element o.tag o.done.reverse) { r with opened := os })
      else none

def addTokens (x : Expansion) (ts : List Token) (r : Reading) : Option Reading :=
  ts.foldlM (addToken x) r

/-- Adds the replacement text of an entity, which is element content and does not start with an end
tag; `left` more levels may nest in it. -/
def addEntity (entities : List Entity) : Nat → String → Reading → Option Reading
  | 0, _, _ => none
  | left + 1, name, r => do
    let e ← entities.find? (·.name == name)
    let (tokens, _) ← Scanner.content 0 e.value
    if (tokens.find? fun t => t matches .startTag .. | .endTag ..) matches some (.endTag _) then
      failure
    addTokens
      { inEntity := true
        inText := fun n r => r.countReference.bind (addEntity entities left n)
        inAttribute := fun n r => r.countReference.bind (attributeEntity entities left n) }
      tokens r

/-- How many levels deep entities may nest. -/
def entityDepth : Nat := 10

def topExpansion (entities : List Entity) : Expansion where
  inEntity := false
  inText n r := addEntity entities entityDepth n { r with references := 0 }
  inAttribute n r := attributeEntity entities entityDepth n { r with references := 0 }

namespace Document

def parse? (text : String) : Option Document := do
  let (entities, tokens) ← Scan.whole? Scanner.document text.toList
  let r ← addTokens (topExpansion entities) tokens {}
  if ! r.opened.isEmpty then failure
  r.top.reverse.findSome? fun
    | .element t cs => some ⟨⟨t, cs⟩⟩
    | .text _ => none

end Document

def Element.parse? (text : String) : Option Element := (Document.parse? text).map Document.tree

end Schematron.Xml
