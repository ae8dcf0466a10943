import Schematron.Error

/-!
# Rules embedded in a grammar

An XML Schema may carry Schematron elements in its annotations (`xs:appinfo`). `Embedded.schema?`
collects them into a Schematron schema of their own. Assertions that stand in an annotation without
a rule get a rule whose context is the innermost `xs:element` declaration around them; its name is
qualified by a prefix for the target namespace, which is bound in the result.
-/
namespace Schematron.Embedded
open Xml

/-- What is needed of a grammar to name the elements that it declares. -/
structure Target where
  /-- The target namespace and the prefix that stands for it. -/
  binding : Option (String × String)
  /-- Whether local elements are in the target namespace unless they say otherwise. -/
  qualifiesLocals : Bool
  deriving DecidableEq, Repr, Inhabited

/-- The candidates for a new prefix: `tns`, `tns1`, `tns2` and so on. -/
def candidate (n : Nat) : String := if n = 0 then "tns" else "tns" ++ toString n

def binds (ns : List Namespace) (pre : String) : Bool := ns.any (·.namespacePrefix == some pre)

/-- The first candidate, from number `n` on, that no declaration binds, among `fuel` of them. -/
def freeFrom (ns : List Namespace) (n : Nat) : (fuel : Nat) → String
  | 0 => candidate n
  | fuel + 1 => if binds ns (candidate n) then freeFrom ns (n + 1) fuel else candidate n

/-- A prefix that no declaration binds. One candidate more than there are declarations is enough. -/
def unusedPrefix (ns : List Namespace) : String := freeFrom ns 0 ns.length

/-- The first prefix that is declared for a namespace. -/
def declaredPrefix? (ns : List Namespace) (uri : String) : Option String :=
  (ns.find? fun n => n.uri == uri && n.namespacePrefix.isSome).bind (·.namespacePrefix)

def Target.ofSchema (schema : Element) : Target where
  binding := ((schema.attr "targetNamespace").filter (! ·.isEmpty)).map fun uri =>
    (uri, (declaredPrefix? schema.tag.namespaces uri).getD (unusedPrefix schema.tag.namespaces))
  qualifiesLocals := schema.attr "elementFormDefault" == some "qualified"

/-- The rule context of an element declaration; a reference stands for itself. -/
def Target.context? (t : Target) (declared : Tag) (isGlobal : Bool) : Option String :=
  match declared.attr "ref" with
  | some r => some r
  | none => (declared.attr "name").map fun name =>
    let qualified := match declared.attr "form" with
      | some form => form == "qualified"
      | none => isGlobal || t.qualifiesLocals
    match t.binding, qualified with
    | some (_, pre), true => pre ++ ":" ++ name
    | _, _ => name

/-- The contents of annotations, sorted by what they are. -/
structure Parts where
  title : Option Element := none
  namespaces : List Element := []
  paragraphs : List Element := []
  lets : List Element := []
  phases : List Element := []
  patterns : List Element := []
  diagnostics : List Element := []
  deriving Repr, Inhabited

namespace Parts

/-- Adds an element of an annotation; assertions without a rule are not added here. -/
def add (p : Parts) (e : Element) : Parts :=
  if e.name.namespaceUri != some schematronUri then p
  else match e.name.localName with
    | "title" => { p with title := p.title.orElse fun _ => some e }
    | "ns" => { p with namespaces := p.namespaces ++ [e] }
    | "p" => { p with paragraphs := p.paragraphs ++ [e] }
    | "let" => { p with lets := p.lets ++ [e] }
    | "phase" => { p with phases := p.phases ++ [e] }
    | "pattern" | "include" => { p with patterns := p.patterns ++ [e] }
    | "diagnostics" => { p with diagnostics := p.diagnostics ++ [e] }
    | "rule" => { p with patterns := p.patterns ++ [(sch "pattern").push e] }
    | _ => p

/-- Whether an element of an annotation is an assertion without a rule. -/
def isBare (e : Element) : Bool := e.is schematronUri "assert" || e.is schematronUri "report"

def bareRule (context : String) (assertions : List Element) : Element :=
  (sch "pattern").push (assertions.foldl (·.push ·) ((sch "rule").setAttr "context" context))

/-- Adds an annotation, whose bare assertions are about the element of the given context. -/
def addAnnotation (p : Parts) (context : Option String) (note : Element) :
    Except TransformError Parts :=
  let p := note.elements.foldl add p
  match note.elements.filter isBare, context with
  | [], _ => .ok p
  | bare, some c => .ok { p with patterns := p.patterns ++ [bareRule c bare] }
  | _, none =>
    .error (.missingContext "sch:assert or sch:report outside any xs:element declaration")

end Parts

mutual

/-- Adds the annotations of a node below a node that is the grammar's root or not. -/
def collect (t : Target) (inRoot : Bool) (context : Option String) :
    Node → Parts → Except TransformError Parts
  | .text _, p => .ok p
  | .element tag cs, p =>
    if tag.name.is xmlSchemaUri "appinfo" then p.addAnnotation context ⟨tag, cs⟩
    else
      let context :=
        if tag.name.is xmlSchemaUri "element" then (t.context? tag inRoot).or context else context
      collectAll t (tag.name.is xmlSchemaUri "schema") context cs p

def collectAll (t : Target) (inRoot : Bool) (context : Option String) :
    List Node → Parts → Except TransformError Parts
  | [], p => .ok p
  | n :: ns, p => do collectAll t inRoot context ns (← collect t inRoot context n p)

end

/-- The bindings that a grammar makes without an `sch:ns`, in order: those of its root, then that of
the target namespace. -/
def implicitBindings (root : Element) (t : Target) : List (String × String) :=
  (root.tag.namespaces.filterMap fun n => n.namespacePrefix.map fun p => (p, n.uri)) ++
    (t.binding.map fun (uri, p) => (p, uri)).toList

/-- Those bindings whose prefix is not bound by then. -/
def freshBindings (bound : List String) : List (String × String) → List (String × String)
  | [] => []
  | (p, uri) :: bs =>
    if bound.contains p then freshBindings bound bs
    else (p, uri) :: freshBindings (p :: bound) bs

def namespaceElement (b : String × String) : Element :=
  ((sch "ns").withAttr "prefix" (some b.1)).withAttr "uri" (some b.2)

def mergedDiagnostics : List Element → List Element
  | [] => []
  | groups => [{ sch "diagnostics" with children := groups.flatMap (·.children) }]

def Parts.schema (p : Parts) (root : Element) (t : Target) : Element :=
  let start := ((sch "schema").declare (some "sch") schematronUri).setAttr "queryBinding" "xslt"
  let bound := p.namespaces.filterMap (·.attr "prefix")
  (p.title.toList ++ p.namespaces ++
    (freshBindings bound (implicitBindings root t)).map namespaceElement ++
    p.paragraphs ++ p.lets ++ p.phases ++ p.patterns ++ mergedDiagnostics p.diagnostics).foldl
    (·.push ·) start

def schema? (root : Element) : Except TransformError Element :=
  if root.is xmlSchemaUri "schema" then do
    let t := Target.ofSchema root
    let p ← collectAll t true none root.children {}
    return p.schema root t
  else .error (.malformed ("expected xs:schema, found " ++ root.name.render))

end Schematron.Embedded
