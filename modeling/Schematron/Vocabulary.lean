import Schematron.Xml.Tree

/-!
# Vocabulary

The namespaces of the languages involved, the two kinds of schema, and the stages through which the
rules of a schema go before they can be run.
-/
namespace Schematron

def schematronUri : String := "http://purl.oclc.org/dsdl/schematron"

def xmlSchemaUri : String := "http://www.w3.org/2001/XMLSchema"

def xincludeUri : String := "http://www.w3.org/2001/XInclude"

def svrlUri : String := "http://purl.oclc.org/dsdl/svrl"

def sch (localName : String) : Xml.Element :=
  .ofName (.inNamespace schematronUri "sch" localName)

def svrl (localName : String) : Xml.Element := .ofName (.inNamespace svrlUri "svrl" localName)

/-- What a schema is. -/
inductive SchemaKind where
  /-- An XML Schema, which may carry rules in its annotations. -/
  | grammar
  /-- A Schematron schema of its own. -/
  | assertions
  deriving DecidableEq, Repr, Inhabited

def SchemaKind.name : SchemaKind → String
  | .grammar => "grammar"
  | .assertions => "assertions"

def SchemaKind.ofName? : String → Option SchemaKind
  | "grammar" => some .grammar
  | "assertions" => some .assertions
  | _ => none

def SchemaKind.language : SchemaKind → String
  | .grammar => "XSD"
  | .assertions => "Schematron"

/-- A stage of rule compilation. -/
inductive Stage where
  /-- Rules are taken out of the annotations of an XML Schema. -/
  | extract
  /-- References to other documents are replaced by what they refer to. -/
  | inclusion
  /-- Abstract patterns and abstract rules are replaced by their instances. -/
  | expand
  /-- A phase is chosen and every expression is compiled. -/
  | compile
  deriving DecidableEq, Repr, Inhabited

def Stage.name : Stage → String
  | .extract => "extract"
  | .inclusion => "include"
  | .expand => "expand"
  | .compile => "compile"

/-- The rewriting stages of a schema, in order. -/
def SchemaKind.stages : SchemaKind → List Stage
  | .grammar => [.extract, .inclusion, .expand]
  | .assertions => [.inclusion, .expand]

/-- The stage that first sees the schema: malformed text is reported against it. -/
def firstStage (stages : List Stage) : Stage := stages.head?.getD .compile

end Schematron
