import Schematron.Diagnostic
import Schematron.Vocabulary

/-!
# Errors

The causes of failure, from a rule that cannot be compiled to a command that cannot be run, and the
words for each.
-/
namespace Schematron

/-- What an abstract definition is of. -/
inductive AbstractKind where
  | pattern
  | rule
  deriving DecidableEq, Repr, Inhabited

def AbstractKind.name : AbstractKind → String
  | .pattern => "pattern"
  | .rule => "rule"

/-- An expression that could not be compiled or evaluated. -/
structure XPathError where
  expression : String
  details : String
  deriving DecidableEq, Repr, Inhabited

def XPathError.message (e : XPathError) : String := "`" ++ e.expression ++ "`: " ++ e.details

/-- Why rules cannot be compiled. -/
inductive TransformError where
  /-- A document is not well-formed. -/
  | xml
  | malformed (details : String)
  | unresolved (href reason : String)
  | includeCycle (href : String)
  | unknownAbstract (kind : AbstractKind) (id : String)
  | unknownPhase (id : String)
  | invalidExpression (expression details : String)
  | missingContext (details : String)
  | unsupported (details : String)
  deriving DecidableEq, Repr, Inhabited

def TransformError.message : TransformError → String
  | .xml => "XML error: not well-formed"
  | .malformed d => "Malformed rules: " ++ d
  | .unresolved h r => "Cannot resolve `" ++ h ++ "`: " ++ r
  | .includeCycle h => "Include cycle through `" ++ h ++ "`"
  | .unknownAbstract k i => "Unknown abstract " ++ k.name ++ " `" ++ i ++ "`"
  | .unknownPhase i => "Unknown phase `" ++ i ++ "`"
  | .invalidExpression e d => "Invalid XPath expression `" ++ e ++ "`: " ++ d
  | .missingContext d => "No context for assertion: " ++ d
  | .unsupported d => "Unsupported construct: " ++ d

/-- An expression that cannot be compiled, as a reason why rules cannot be. -/
def TransformError.ofXPath (e : XPathError) : TransformError :=
  .invalidExpression e.expression e.details

/-- Why a schema's rules cannot be compiled, and the stage that failed. -/
structure RuleError where
  stage : Stage
  cause : TransformError
  deriving DecidableEq, Repr, Inhabited

def RuleError.message (e : RuleError) : String :=
  "Rule compilation failed in " ++ e.stage.name ++ " stage: " ++ e.cause.message

/-- How the XML processor itself can fail. -/
inductive ProcessorError where
  | schemaParseFailed
  | noValidationContext
  | noXPathContext
  | outOfMemory
  | invalidXml (details : String)
  | validationInternal (code : Int) (document : String)
  | interiorNul (argument : String)
  deriving DecidableEq, Repr, Inhabited

def ProcessorError.message : ProcessorError → String
  | .schemaParseFailed => "Schema parsing failed: null pointer returned"
  | .noValidationContext => "Validation context creation failed"
  | .noXPathContext => "XPath context creation failed"
  | .outOfMemory => "Memory allocation failed in libxml2"
  | .invalidXml d => "Invalid XML structure: " ++ d
  | .validationInternal c d => "Document validation internal error " ++ toString c ++ ": " ++ d
  | .interiorNul a => "Argument contains an interior NUL byte: " ++ a

/-- How the transport of a request or of its answer can fail; one failure may be of several kinds. -/
structure TransportError where
  details : String
  /-- Time ran out. -/
  timedOut : Bool := false
  /-- There was no connection. -/
  unconnected : Bool := false
  /-- The request was not sent. -/
  unsent : Bool := false
  deriving DecidableEq, Repr, Inhabited

/-- Why a schema cannot be used, or a document cannot be checked. -/
inductive EngineError where
  | io (reason : String)
  /-- A request failed without an answer. -/
  | http (error : TransportError)
  | httpStatus (url : String) (status : Nat) (reason : String)
  | timeout (url : String) (seconds : Nat)
  | schemaParsing (url details : String)
  | schemaNotFound (url : String)
  | unsupportedSchema (systemId : String)
  | grammarCompilation (systemId : String) (diagnostics : List Diagnostic)
  | rules (error : RuleError)
  | documentParse (document : String) (diagnostics : List Diagnostic)
  | documentGrammar (document details : String)
  | assertionEvaluation (expression details : String)
  | cache (details : String)
  | config (details : String)
  | internal (details : String)
  | traversal (path reason : String)
  | concurrency (details : String)
  deriving DecidableEq, Repr, Inhabited

namespace EngineError

/-- Diagnostics, each on an indented line of its own. -/
def renderDiagnostics (ds : List Diagnostic) : String := String.join (ds.map ("\n  " ++ ·.render))

def message : EngineError → String
  | .io r => "IO error: " ++ r
  | .http e => "HTTP error: " ++ e.details
  | .httpStatus u s r => "HTTP status error: " ++ toString s ++ " for " ++ u ++ " - " ++ r
  | .timeout u s => "Request timeout: " ++ u ++ " after " ++ toString s ++ " seconds"
  | .schemaParsing u d => "Schema parsing error: " ++ u ++ " - " ++ d
  | .schemaNotFound u => "Schema not found: " ++ u
  | .unsupportedSchema i =>
    "Unsupported schema: " ++ i ++ " is neither an XML Schema nor a Schematron schema"
  | .grammarCompilation i ds => "Grammar compilation failed: " ++ i ++ renderDiagnostics ds
  | .rules e => e.message
  | .documentParse d ds => "Document could not be parsed: " ++ d ++ renderDiagnostics ds
  | .documentGrammar d r => "Grammar validation could not run: " ++ d ++ " - " ++ r
  | .assertionEvaluation e d => "Assertion evaluation failed: `" ++ e ++ "` - " ++ d
  | .cache d => "Cache error: " ++ d
  | .config d => "Configuration error: " ++ d
  | .internal d => "LibXML2 internal error: " ++ d
  | .traversal p r => "File system traversal error: " ++ p ++ " - " ++ r
  | .concurrency d => "Concurrent operation error: " ++ d

/-- Whether the error arises while a schema is turned into something that can be run. -/
def isSchemaLevel : EngineError → Bool
  | .schemaParsing .. | .unsupportedSchema .. | .grammarCompilation .. | .rules .. => true
  | _ => false

/-- Whether the same request may succeed if it is made again. -/
def isTransient : EngineError → Bool
  | .http e => e.timedOut || e.unconnected || e.unsent
  | .timeout .. => true
  | _ => false

/-- The cause beneath the error in words, where the error has one of its own. -/
def cause? : EngineError → Option String
  | .io r => some r
  | .http e => some e.details
  | .rules e => some e.cause.message
  | _ => none

def ofProcessor (e : ProcessorError) : EngineError := .internal e.message

def ofXPath (e : XPathError) : EngineError := .assertionEvaluation e.expression e.details

end EngineError

end Schematron
