import Schematron.Error
import Schematron.Url.FilePath

/-!
# Locations

Where a schema lives: under a path, or on a server. What starts with `http://` or `https://` is
remote; a `file:` URL and everything else is a path.
-/
namespace Schematron

/-- Where a schema lives. -/
inductive Location where
  | path (path : String)
  | remote (url : Url)
  deriving DecidableEq, Repr, Inhabited

def Location.parse (text : String) : Except EngineError Location :=
  if text.startsWith "http://" || text.startsWith "https://" then
    match Url.parse text with
    | .ok u => .ok (.remote u)
    | .error e => .error (.schemaParsing text ("invalid URL: " ++ e.message))
  else if text.startsWith "file:" then
    match (Url.parse text).toOption.bind (·.path?) with
    | some p => .ok (.path p)
    | none => .error (.schemaNotFound text)
  else .ok (.path text)

end Schematron
