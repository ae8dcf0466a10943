import Schematron.Error
import Schematron.Text.Scan

/-!
# Abstract patterns and rules

A pattern with `is-a` is an instance of an abstract pattern: a copy of it in whose attribute values
each `$name` is replaced by the instance's parameter of that name. A rule with `sch:extends` takes
over the children of the abstract rule that it names. After expansion no abstract pattern, no
abstract rule and no instance is left.
-/
namespace Schematron.Expansion
open Xml
open Text.Scan (after?)

def isAbstract (t : Tag) : Bool := t.attr "abstract" == some "true"

/-- Definitions by id; of two with one id, the last one counts. -/
def lookup? {α : Type} (defs : List (String × α)) (id : String) : Option α :=
  (defs.reverse.find? (·.1 == id)).map (·.2)

/-- Replaces every occurrence of a word, which must not be empty, from left to right; `skip`
characters belong to an occurrence that is replaced already. -/
def replaceFrom (word value : List Char) : (skip : Nat) → List Char → List Char
  | _, [] => []
  | skip + 1, _ :: cs => replaceFrom word value skip cs
  | 0, c :: cs =>
    match after? word (c :: cs) with
    | some _ => value ++ replaceFrom word value (word.length - 1) cs
    | none => c :: replaceFrom word value 0 cs

/-- The text with every occurrence of a word replaced. -/
def replaceAll (word value s : String) : String :=
  String.ofList (replaceFrom word.toList value.toList 0 s.toList)

/-- Replaces parameters in an attribute value, one after the other. -/
def substituteValue (params : List (String × String)) (value : String) : String :=
  params.foldl (fun v (name, text) => replaceAll name text v) value

mutual

/-- Replaces parameters in all attribute values of a node. -/
def substitute (params : List (String × String)) : Node → Node
  | .text s => .text s
  | .element t cs =>
    .element { t with attributes := t.attributes.map fun a =>
      { a with value := substituteValue params a.value } } (substituteAll params cs)

/-- Replaces parameters in all attribute values of a list of nodes. -/
def substituteAll (params : List (String × String)) : List Node → List Node
  | [] => []
  | n :: ns => substitute params n :: substituteAll params ns

end

/-- A parameter of an instance, with the mark before its name. -/
def parameter? (e : Element) : Except TransformError (String × String) :=
  match e.attr "name", e.attr "value" with
  | some name, some value => .ok ("$" ++ name, value)
  | _, _ => .error (.malformed "sch:param requires @name and @value")

/-- The order in which parameters are replaced: longer names first, so that none hides another. -/
def longerFirst (a b : String × String) : Bool := b.1.utf8ByteSize ≤ a.1.utf8ByteSize

def parameters? (pattern : Element) : Except TransformError (List (String × String)) := do
  let ps ← (pattern.childrenNamed schematronUri "param").mapM parameter?
  return ps.mergeSort longerFirst

/-- Adds nodes, joining neighbouring texts. -/
def appendAll (done : List Node) : List Node → List Node
  | [] => done
  | .text s :: ns => appendAll (Node.appendText s done) ns
  | n :: ns => appendAll (done ++ [n]) ns

def instantiate (pattern template : Element) : Except TransformError Element := do
  let params ← parameters? pattern
  let own := pattern.elements.filter fun e => ! e.is schematronUri "param"
  return {
    tag := { pattern.tag with
      attributes := pattern.tag.attributes.filter fun a => ! a.name.isPlain "is-a" }
    children := appendAll (own.map Element.toNode) (substituteAll params template.children) }

def isSch (t : Tag) (localName : String) : Bool := t.name.is schematronUri localName

def abstractPatterns (schema : Element) : List (String × Element) :=
  (schema.childrenNamed schematronUri "pattern").filterMap fun p =>
    if isAbstract p.tag then (p.attr "id").map fun id => (id, p) else none

/-- A child of a schema with its instances replaced; an abstract pattern vanishes. -/
def concretePattern (templates : List (String × Element)) : Node →
    Except TransformError (List Node)
  | .text s => .ok [.text s]
  | .element t cs =>
    if isSch t "pattern" then
      if isAbstract t then .ok []
      else match t.attr "is-a" with
        | none => .ok [.element t cs]
        | some id =>
          match lookup? templates id with
          | none => .error (.unknownAbstract .pattern id)
          | some template => do return [(← instantiate ⟨t, cs⟩ template).toNode]
    else .ok [.element t cs]

def instantiatePatterns (schema : Element) : Except TransformError Element := do
  let parts ← schema.children.mapM (concretePattern (abstractPatterns schema))
  return { schema with children := parts.flatten }

/-- How many rules may extend one another in a chain. -/
def maxExtends : Nat := 32

/-- The abstract rule that a node is, by its id. -/
def abstractRule? (rule : Element) : Except TransformError (Option (String × Element)) :=
  if isAbstract rule.tag then
    match rule.attr "id" with
    | some id => .ok (some (id, rule))
    | none => .error (.malformed "abstract sch:rule without @id")
  else .ok none

def abstractRules (schema : Element) : Except TransformError (List (String × Element)) := do
  let rules := (schema.childrenNamed schematronUri "pattern").flatMap fun p =>
    p.childrenNamed schematronUri "rule"
  return (← rules.mapM abstractRule?).filterMap id

def flattenChild (flatten : String → Except TransformError (List Node)) : Node →
    Except TransformError (List Node)
  | .text s => .ok [.text s]
  | .element t cs =>
    if isSch t "extends" then
      match t.attr "rule" with
      | none => .error (.malformed "sch:extends requires @rule or @href")
      | some id => flatten id
    else .ok [.element t cs]

/-- What the children of a rule stand for, in order. -/
def flattenChildren (flatten : String → Except TransformError (List Node)) : List Node →
    Except TransformError (List Node)
  | [] => .ok []
  | n :: ns => do return (← flattenChild flatten n) ++ (← flattenChildren flatten ns)

/-- The children that the abstract rule with an id gives; `left` more rules may extend one another. -/
def extended (rules : List (String × Element)) : (left : Nat) → String →
    Except TransformError (List Node)
  | left, id =>
    match lookup? rules id with
    | none => .error (.unknownAbstract .rule id)
    | some rule =>
      match left with
      | 0 => .error (.malformed
          ("sch:extends nested deeper than " ++ toString maxExtends ++ " rules"))
      | left + 1 => flattenChildren (extended rules left) rule.children

def extend (rules : List (String × Element)) (rule : Element) : Except TransformError Element := do
  return { rule with children := ← flattenChildren (extended rules maxExtends) rule.children }

/-- A child of a pattern with what it extends put in; an abstract rule vanishes. -/
def concreteRule (rules : List (String × Element)) : Node → Except TransformError (List Node)
  | .text s => .ok [.text s]
  | .element t cs =>
    if isSch t "rule" then
      if isAbstract t then .ok [] else do return [(← extend rules ⟨t, cs⟩).toNode]
    else .ok [.element t cs]

def withConcreteRules (rules : List (String × Element)) : Node → Except TransformError Node
  | .text s => .ok (.text s)
  | .element t cs =>
    if isSch t "pattern" then do
      return .element t (← cs.mapM (concreteRule rules)).flatten
    else .ok (.element t cs)

def resolveRules (schema : Element) : Except TransformError Element := do
  let rules ← abstractRules schema
  return { schema with children := ← schema.children.mapM (withConcreteRules rules) }

/-- The schema without abstract definitions. -/
def expand (schema : Element) : Except TransformError Element := do
  resolveRules (← instantiatePatterns schema)

end Schematron.Expansion
