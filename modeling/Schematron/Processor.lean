import Schematron.Error
import Schematron.Number.Basic
import Schematron.Text.Utf8
import Schematron.XPath.Value

/-!
# XML processors

Parsing documents, compiling and evaluating XPath expressions, and compiling and applying XML
Schemas is the work of an XML processor. Here a processor is a record of pure functions over its own
type of documents; the rest of the library is written, and holds, for any processor. The functions
in this module add the checks and error texts that every use of a processor shares.
-/
namespace Schematron

/-- The result of parsing: a document unless the text is not well-formed, and what was reported. -/
structure Parsed (D : Type) where
  diagnostics : List Diagnostic
  document : Option D
  deriving Inhabited

/-- The result of compiling a grammar. -/
structure GrammarBuild where
  /-- What was reported. -/
  diagnostics : List Diagnostic
  /-- Whether there is a compiled grammar. -/
  succeeded : Bool
  deriving Repr, Inhabited

/-- The result of validating a document against a grammar: zero if it conforms, a positive code if
it does not, a negative one if validation failed, and what was reported. -/
structure GrammarCheck where
  code : Int
  diagnostics : List Diagnostic
  deriving Repr, Inhabited

/-- An XML processor over a type of documents. -/
structure Processor (D : Type) where
  /-- Parses bytes that have a name. -/
  parseBytes : (systemId : String) → Bytes → Parsed D
  /-- Parses the file with a path. -/
  parseFile : (path : String) → Parsed D
  /-- The messages with which an expression is refused; none if it is accepted. -/
  refusal : (expression : String) → Option (List String)
  /-- Whether expressions can be evaluated in a document. -/
  hasContext : D → Bool
  /-- Whether a binding of a prefix is accepted. -/
  acceptsNamespace : (pre uri : String) → Bool
  /-- Whether a binding of a variable is accepted. -/
  acceptsVariable : (name : String) → Bool
  /-- The value of an expression at a node, or the messages with which evaluation fails. -/
  evaluate : D → XPath.Environment → (expression : String) → XPath.NodePath →
    Except (List String) XPath.Value
  /-- The root element of a document. -/
  rootPath : D → Option XPath.NodePath
  /-- The line of a node as far as it is known. -/
  line : D → XPath.NodePath → Int
  /-- Compiles a grammar from its document, if there is room for it. -/
  compileGrammar : D → Option GrammarBuild
  /-- Validates a document against the grammar of another one, if there is room for it. -/
  checkGrammar : (grammar document : D) → Option GrammarCheck

namespace Processor
variable {D : Type}

/-- An argument for the processor, which may hold no NUL character. -/
def argument (s : String) : Except ProcessorError Unit :=
  if s.toList.contains (Char.ofNat 0) then .error (.interiorNul s) else .ok ()

def maxBytes : Nat := Number.capacity 31 - 1

def parseMemory (p : Processor D) (systemId : String) (data : Bytes) :
    Except ProcessorError (Parsed D) := do
  argument systemId
  if maxBytes < data.length then throw (.invalidXml (systemId ++ " is too large to parse"))
  return p.parseBytes systemId data

def parsePath (p : Processor D) (path : String) : Except ProcessorError (Parsed D) := do
  argument path
  return p.parseFile path

/-- A processor that parses files in another way. -/
def readingWith (p : Processor D) (parseFile : String → Parsed D) : Processor D :=
  { p with parseFile }

def describe (fallback : String) (messages : List String) : String :=
  if messages.isEmpty then fallback else "; ".intercalate messages

def compileExpression (p : Processor D) (source : String) : Except XPathError Unit :=
  match argument source with
  | .error e => .error ⟨source, e.message⟩
  | .ok () =>
    match p.refusal source with
    | some messages => .error ⟨source, describe "invalid expression" messages⟩
    | none => .ok ()

/-- The environment in which the expressions of a document start to be evaluated. -/
def newEnvironment (p : Processor D) (d : D) : Except ProcessorError XPath.Environment :=
  if p.hasContext d then .ok .empty else .error .noXPathContext

def bindNamespace (p : Processor D) (env : XPath.Environment) (pre uri : String) :
    Except ProcessorError XPath.Environment := do
  argument pre
  argument uri
  if p.acceptsNamespace pre uri then return env.bindNamespace pre uri
  else throw (.invalidXml ("cannot bind namespace prefix `" ++ pre ++ "`"))

def lookup (env : XPath.Environment) (name : String) :
    Except ProcessorError (Option XPath.Value) := do
  argument name
  return env.valueOf name

def bindVariable (p : Processor D) (env : XPath.Environment) (name : String)
    (value : XPath.Value) : Except ProcessorError XPath.Environment := do
  argument name
  if p.acceptsVariable name then return env.bindVariable name (some value)
  else throw (.invalidXml ("cannot bind variable `" ++ name ++ "`"))

def unbindVariable (env : XPath.Environment) (name : String) :
    Except ProcessorError XPath.Environment := do
  argument name
  return env.bindVariable name none

def eval (p : Processor D) (d : D) (env : XPath.Environment) (source : String)
    (node : XPath.NodePath) : Except XPathError XPath.Value :=
  match p.evaluate d env source node with
  | .ok v => .ok v
  | .error messages => .error ⟨source, describe "evaluation failed" messages⟩

/-- The line of a node, if it is known. -/
def lineOf (p : Processor D) (d : D) (node : XPath.NodePath) : Option Nat :=
  let n := p.line d node
  if 0 < n && n < Number.capacity 32 then some n.toNat else none

end Processor

end Schematron
