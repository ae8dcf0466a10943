/-!
# XML trees

An element is a tag (name, namespace declarations, attributes) with a list of children, each an
element or a text. The edits keep a tree in the form in which it was read: `setAttr` and
`removeAttr` touch the attribute in no namespace with the given name and no other, `declare` keeps
one declaration for each prefix, and `pushText` joins a text to the text before it.
-/
namespace Schematron.Xml

/-- A name: its namespace, the prefix it is written with, and its local part. -/
structure QName where
  namespaceUri : Option String
  namespacePrefix : Option String
  localName : String
  deriving DecidableEq, Repr, Inhabited

namespace QName

/-- A name in no namespace. -/
def plain (localName : String) : QName := ⟨none, none, localName⟩

/-- A name in a namespace; the empty prefix stands for none. -/
def inNamespace (uri pre localName : String) : QName :=
  ⟨some uri, if pre.isEmpty then none else some pre, localName⟩

/-- The name as it is written: `prefix:local`, or the local part alone. -/
def render (q : QName) : String :=
  match q.namespacePrefix with
  | some p => p ++ ":" ++ q.localName
  | none => q.localName

def is (q : QName) (uri localName : String) : Bool :=
  q.namespaceUri == some uri && q.localName == localName

/-- Whether this is the name of the attribute that is written `localName`, without a namespace. -/
def isPlain (q : QName) (localName : String) : Bool :=
  q.namespaceUri.isNone && q.localName == localName

end QName

/-- An attribute. -/
structure Attribute where
  name : QName
  value : String
  deriving DecidableEq, Repr, Inhabited

/-- A namespace declaration; without a prefix it declares the default namespace. -/
structure Namespace where
  namespacePrefix : Option String
  uri : String
  deriving DecidableEq, Repr, Inhabited

/-- What is written between the angle brackets of a start tag. -/
structure Tag where
  name : QName
  namespaces : List Namespace := []
  attributes : List Attribute := []
  deriving DecidableEq, Repr, Inhabited

namespace Tag

/-- The value of an attribute in no namespace. -/
def attr (t : Tag) (localName : String) : Option String :=
  (t.attributes.find? fun a => a.name.isPlain localName).map (·.value)

/-- Replaces the value of the first attribute of that name, or adds the attribute at the end. -/
def putAttr (localName value : String) : List Attribute → List Attribute
  | [] => [⟨.plain localName, value⟩]
  | a :: as =>
    if a.name.isPlain localName then ⟨a.name, value⟩ :: as else a :: putAttr localName value as

/-- Removes the first attribute of that name. -/
def dropAttr (localName : String) (as : List Attribute) : List Attribute :=
  as.eraseP fun a => a.name.isPlain localName

/-- Sets an attribute in no namespace. -/
def setAttr (t : Tag) (localName value : String) : Tag :=
  { t with attributes := putAttr localName value t.attributes }

/-- Removes an attribute in no namespace. -/
def removeAttr (t : Tag) (localName : String) : Tag :=
  { t with attributes := dropAttr localName t.attributes }

/-- Sets an attribute if a value is given. -/
def withAttr (t : Tag) (localName : String) : Option String → Tag
  | some value => t.setAttr localName value
  | none => t

/-- Replaces the first declaration of a prefix, or adds one at the end. -/
def putNamespace (n : Namespace) : List Namespace → List Namespace
  | [] => [n]
  | m :: ms => if m.namespacePrefix = n.namespacePrefix then n :: ms else m :: putNamespace n ms

/-- Declares a namespace; the empty prefix is that of the default namespace. -/
def declare (t : Tag) (pre : Option String) (uri : String) : Tag :=
  { t with namespaces := putNamespace ⟨pre.filter (! ·.isEmpty), uri⟩ t.namespaces }

@[simp] theorem name_setAttr (t : Tag) (l v : String) : (t.setAttr l v).name = t.name := rfl

@[simp] theorem name_withAttr (t : Tag) (l : String) (v : Option String) :
    (t.withAttr l v).name = t.name := by cases v <;> rfl

end Tag

/-- An element or a text. -/
inductive Node where
  | element (tag : Tag) (children : List Node)
  | text (content : String)
  deriving Repr, Inhabited, BEq

/-- An element: its tag and its children. -/
structure Element where
  tag : Tag
  children : List Node := []
  deriving Repr, Inhabited, BEq

namespace Element

def toNode (e : Element) : Node := .element e.tag e.children

end Element

namespace Node

/-- The element, if the node is one. -/
def element? : Node → Option Element
  | .element t cs => some ⟨t, cs⟩
  | .text _ => none

@[simp] theorem element?_toNode (e : Element) : e.toNode.element? = some e := rfl

mutual

/-- All text below a node, joined in document order. -/
def stringValue : Node → String
  | .element _ cs => stringValues cs
  | .text s => s

/-- All text of a list of nodes, joined in document order. -/
def stringValues : List Node → String
  | [] => ""
  | n :: ns => n.stringValue ++ stringValues ns

end

mutual

/-- The elements of a node in document order, the node itself first. -/
def elements : Node → List Element
  | .element t cs => ⟨t, cs⟩ :: elementsOf cs
  | .text _ => []

def elementsOf : List Node → List Element
  | [] => []
  | n :: ns => n.elements ++ elementsOf ns

end

/-- Adds a text at the end of a list of nodes: joined to the text before it, and not at all if it
is empty. -/
def appendText (s : String) (ns : List Node) : List Node :=
  if s.isEmpty then ns
  else match ns with
    | [] => [.text s]
    | [.text t] => [.text (t ++ s)]
    | n :: rest => n :: appendText s rest

end Node

namespace Element

/-- An element without attributes and children. -/
def ofName (name : QName) : Element := ⟨{ name := name }, []⟩

def name (e : Element) : QName := e.tag.name

def is (e : Element) (uri localName : String) : Bool := e.name.is uri localName

/-- The value of an attribute in no namespace. -/
def attr (e : Element) (localName : String) : Option String := e.tag.attr localName

/-- Sets an attribute in no namespace. -/
def setAttr (e : Element) (localName value : String) : Element :=
  { e with tag := e.tag.setAttr localName value }

/-- Removes an attribute in no namespace. -/
def removeAttr (e : Element) (localName : String) : Element :=
  { e with tag := e.tag.removeAttr localName }

/-- Sets an attribute if a value is given. -/
def withAttr (e : Element) (localName : String) (value : Option String) : Element :=
  { e with tag := e.tag.withAttr localName value }

def declare (e : Element) (pre : Option String) (uri : String) : Element :=
  { e with tag := e.tag.declare pre uri }

def push (e child : Element) : Element := { e with children := e.children ++ [child.toNode] }

/-- Adds text at the end, joined to the text before it. -/
def pushText (e : Element) (s : String) : Element :=
  { e with children := Node.appendText s e.children }

/-- Changes the child element with an index, texts not counted, and reports something. -/
def alterChild {α : Type} (f : Element → Option (α × Element)) :
    Nat → List Node → Option (α × List Node)
  | _, [] => none
  | i, .text s :: ns => (alterChild f i ns).map fun (a, ns) => (a, .text s :: ns)
  | 0, .element t cs :: ns => (f ⟨t, cs⟩).map fun (a, e) => (a, e.toNode :: ns)
  | i + 1, n :: ns => (alterChild f i ns).map fun (a, ns) => (a, n :: ns)

/-- Changes the element that a path of indices leads to, and reports something. -/
def alterAt {α : Type} (f : Element → α × Element) : List Nat → Element → Option (α × Element)
  | [], e => some (f e)
  | i :: path, e =>
    (alterChild (alterAt f path) i e.children).map fun (a, cs) => (a, { e with children := cs })

def elements (e : Element) : List Element := e.children.filterMap Node.element?

def childrenNamed (e : Element) (uri localName : String) : List Element :=
  e.elements.filter (·.is uri localName)

/-- The first child element of the given name. -/
def firstChild (e : Element) (uri localName : String) : Option Element :=
  e.elements.find? (·.is uri localName)

/-- The element and all elements below it, in document order. -/
def descendants (e : Element) : List Element := e.toNode.elements

/-- The first element, in document order, with the given `id`. -/
def findById (e : Element) (id : String) : Option Element :=
  e.descendants.find? fun d => d.attr "id" == some id

/-- All text below the element, joined in document order. -/
def text (e : Element) : String := Node.stringValues e.children

@[simp] theorem name_push (e c : Element) : (e.push c).name = e.name := rfl

@[simp] theorem name_setAttr (e : Element) (l v : String) : (e.setAttr l v).name = e.name := rfl

@[simp] theorem name_withAttr (e : Element) (l : String) (v : Option String) :
    (e.withAttr l v).name = e.name := Tag.name_withAttr e.tag l v

theorem mem_elements {e x : Element} : x ∈ e.elements ↔ x.toNode ∈ e.children := by
  simp only [elements, List.mem_filterMap]
  constructor
  · rintro ⟨n, hn, hx⟩
    cases n with
    | text s => cases hx
    | element t cs =>
      cases hx
      exact hn
  · intro h
    exact ⟨x.toNode, h, rfl⟩

@[simp] theorem elements_push (e c : Element) : (e.push c).elements = e.elements ++ [c] := by
  simp [push, elements]

end Element

end Schematron.Xml
