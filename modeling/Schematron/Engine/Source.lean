import Schematron.Error
import Schematron.Text.Utf8
import Schematron.Url.FilePath

/-!
# Sources

The bytes of a schema with the identifier that they were loaded from, and the documents to validate.
-/
namespace Schematron

/-- The bytes of a schema and where they come from. -/
structure SchemaSource where
  systemId : String
  data : Bytes
  deriving Repr, Inhabited

namespace SchemaSource

def text (s : SchemaSource) : Except EngineError String :=
  (Utf8.decode s.data).mapError fun f => .schemaParsing s.systemId ("not valid UTF-8: " ++ f.message)

def baseUrl (s : SchemaSource) (directory : String) : Option Url :=
  Url.ofSystemId? directory s.systemId

end SchemaSource

/-- A document to validate. -/
inductive DocumentSource where
  | file (path : String)
  | memory (systemId : String) (data : Bytes)
  deriving Repr, Inhabited

def DocumentSource.systemId : DocumentSource → String
  | .file p => p
  | .memory i _ => i

end Schematron
