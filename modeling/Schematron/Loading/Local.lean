import Schematron.Engine.Source
import Schematron.Files.System
import Schematron.Rules.Inclusion

/-!
# Local sources

Schemas and included documents from a file system.
-/
namespace Schematron

/-- Loads a schema from a file; its identifier is the path from the root. -/
def SchemaSource.ofFile (fs : FileSystem) (directory path : String) :
    Except EngineError SchemaSource :=
  match fs.read directory path with
  | .ok data => .ok ⟨(Path.absolute? directory path).getD path, data⟩
  | .error .notFound => .error (.schemaNotFound path)
  | .error e => .error (.io e.message)

namespace Inclusion

def fetchFile (fs : FileSystem) (u : Url) : Except TransformError String :=
  if u.scheme != "file" then
    .error (.unresolved u.render ("no resolver for `" ++ u.scheme ++ "` URLs"))
  else
    match u.path? with
    | none => .error (.unresolved u.render "not a local path")
    | some path =>
      (fs.readText "/" path).mapError fun e => .unresolved u.render e.message

/-- A bound on the number of targets in a file system. The path of a target can be followed, and
its query and fragment are written in some file; escaping makes three bytes of one. -/
def targetBound (fs : FileSystem) : Nat :=
  Nat.pow 256 (3 * (FileSystem.maxPathBytes + fs.totalSize) + 16)

/-- A resolver for `file:` URLs. -/
def Resolver.ofFiles (fs : FileSystem) : Resolver := ⟨fetchFile fs, targetBound fs⟩

end Inclusion

end Schematron
