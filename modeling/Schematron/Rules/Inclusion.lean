import Schematron.Error
import Schematron.Url.FilePath
import Schematron.Xml.Document

/-!
# Inclusion

References to other documents (`sch:include`, `xi:include`, and `sch:extends` with an `href`) are
replaced by what they refer to: a whole document, or the element that a fragment names. Included
content is expanded in turn, relative to the document that it comes from. A reference to a target
that is being expanded is a cycle.
-/
namespace Schematron.Inclusion
open Xml

/-- A source of documents. No chain of inclusions is as long as `depth`, since each target on it has
another name. -/
structure Resolver where
  fetch : Url → Except TransformError String
  depth : Nat

/-- The names of the targets in a document at a URL: the whole document and its elements with an
`id`. -/
def targetNames (document : String × String) : List String :=
  match Document.parse? document.2 with
  | some d => document.1 :: d.ids.map fun id => document.1 ++ "#" ++ id
  | none => []

/-- A resolver for the documents of a list, by their URLs. -/
def Resolver.ofList (documents : List (String × String)) : Resolver where
  fetch u :=
    match documents.find? (·.1 == u.render) with
    | some d => .ok d.2
    | none => .error (.unresolved u.render "not found")
  depth := (documents.flatMap targetNames).length + 1

/-- What a reference does with the document that it names. -/
inductive Reference where
  /-- The root takes the place of the reference; a whole schema gives its children. -/
  | insert
  /-- The children of the root take the place of the reference. -/
  | splice
  deriving DecidableEq, Repr, Inhabited

/-- What kind of reference an element is, if it is one. -/
def Reference.of? (t : Tag) : Option Reference :=
  if t.name.is schematronUri "include" || t.name.is xincludeUri "include" then some .insert
  else if t.name.is schematronUri "extends" && (t.attr "href").isSome then some .splice
  else none

/-- The way of parsing that a reference asks for, if it is not parsing as XML. -/
def otherParse? (t : Tag) : Option String :=
  if t.name.is xincludeUri "include" then (t.attr "parse").filter (· != "xml") else none

/-- A node with the given declarations added, except for prefixes that it declares itself. -/
def inherit (ns : List Namespace) (t : Tag) : Tag :=
  { t with namespaces := ns.foldl (fun own n =>
      if own.any (·.namespacePrefix == n.namespacePrefix) then own else own ++ [n]) t.namespaces }

/-- Adds the children of an element, with the namespaces that they rely on. -/
def spliceChildren (ns : List Namespace) (done : List Node) : List Node → List Node
  | [] => done
  | .text s :: rest => spliceChildren ns (Node.appendText s done) rest
  | .element t cs :: rest => spliceChildren ns (done ++ [.element (inherit ns t) cs]) rest

def Reference.add (r : Reference) (done : List Node) (included : Element) : List Node :=
  if r = .splice || included.is schematronUri "schema" then
    spliceChildren included.tag.namespaces done included.children
  else done ++ [included.toNode]

/-- What a reference names: a URL without fragment, and the fragment. -/
structure Target where
  url : Url
  fragment : Option String
  deriving DecidableEq, Repr, Inhabited

def Target.render (t : Target) : String :=
  match t.fragment with
  | some id => t.url.render ++ "#" ++ id
  | none => t.url.render

/-- Where a document is: its URL, if it has one, and the directory that relative paths start from
otherwise. -/
structure Base where
  url : Option Url
  directory : String
  deriving Repr, Inhabited

def target (base : Base) (t : Tag) : Except TransformError Target := do
  match t.attr "href" with
  | none => throw (.malformed (t.name.render ++ " without @href"))
  | some href =>
    let url ← match base.url with
      | some b => (b.join href).mapError fun e => .unresolved href e.message
      | none => ((Url.ofSystemId? base.directory href).elim
          (.error (.unresolved href "not a valid location")) .ok)
    return ⟨url.withoutFragment, url.fragment⟩

/-- The element that a target names in the text of its document; `href` is the reference. -/
def select (href : String) (t : Target) (text : String) : Except TransformError Element :=
  match Document.parse? text with
  | none => .error .xml
  | some d =>
    match t.fragment with
    | none => .ok d.tree
    | some id =>
      match d.elementById id with
      | some e => .ok (.ofScoped e)
      | none => .error (.unresolved href ("no element with id `" ++ id ++ "`"))

/-- Whether a target is being expanded: it is on the chain, or it is a whole document there. -/
def onChain (chain : List String) (t : Target) : Bool :=
  (t.fragment.isNone && chain.contains t.url.render) || chain.contains t.render

/-- The place in which references are expanded. -/
structure Context where
  base : Base
  /-- The targets that are being expanded. -/
  chain : List String

def Context.enter (c : Context) (t : Target) : Context where
  base := { c.base with url := some t.url }
  chain := c.chain ++ [t.render]

/-- The element that a reference names, and where its contents are expanded. -/
def load (resolver : Resolver) (c : Context) (tag : Tag) :
    Except TransformError (Target × Element) := do
  let t ← target c.base tag
  if onChain c.chain t then throw (.includeCycle t.render)
  let text ← resolver.fetch t.url
  return (t, ← select ((tag.attr "href").getD "") t text)

mutual

def expandNode (follow : Context → Tag → Except TransformError Element) (c : Context)
    (done : List Node) : Node → Except TransformError (List Node)
  | .text s => .ok (done ++ [.text s])
  | .element t cs =>
    match Reference.of? t with
    | some r =>
      match otherParse? t with
      | some p => .error (.unsupported ("xi:include with parse=\"" ++ p ++ "\""))
      | none => do return r.add done (← follow c t)
    | none => do return done ++ [.element t (← expandNodes follow c [] cs)]

def expandNodes (follow : Context → Tag → Except TransformError Element) (c : Context)
    (done : List Node) : List Node → Except TransformError (List Node)
  | [] => .ok done
  | n :: ns => do expandNodes follow c (← expandNode follow c done n) ns

end

/-- What a reference stands for, expanded; `depth` bounds the chain of references to follow. -/
def follow (resolver : Resolver) : (depth : Nat) → Context → Tag → Except TransformError Element
  | 0, c, tag => do throw (.includeCycle (← target c.base tag).render)
  | depth + 1, c, tag => do
    let (t, e) ← load resolver c tag
    return { e with children := ← expandNodes (follow resolver depth) (c.enter t) [] e.children }

/-- The tree with all references below its root expanded. -/
def expand (resolver : Resolver) (base : Base) (e : Element) : Except TransformError Element := do
  let c : Context := ⟨base, (base.url.map (·.render)).toList⟩
  return { e with children := ← expandNodes (follow resolver resolver.depth) c [] e.children }

end Schematron.Inclusion
