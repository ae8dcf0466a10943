import Schematron.Url.Parser
import Schematron.Files.Path

/-!
# URLs of files

The `file:` URL of an absolute path, and the path that a `file:` URL names. In the URL of a path a
double dot stays a segment of its own.
-/
namespace Schematron.Url

def ofPath? (path : String) : Option Url :=
  if Path.isAbsolute path then
    let ps := (Path.parts path).map fun p => String.ofList (percentEncode fileSegmentSet p.toList)
    some ⟨"file", some ⟨"", "", none⟩, .segments (if ps.isEmpty then [""] else ps), none, none⟩
  else none

/-- Whether a path ends in a drive letter, after which a slash belongs. -/
def endsInDrive (path : List Char) : Bool :=
  match path.reverse with
  | b :: a :: _ :: _ => (b == ':' || b == '|') && a.isAlpha
  | _ => false

/-- The path that a URL without a foreign host names. -/
def path? (u : Url) : Option String :=
  match u.path with
  | .opaquePath _ => none
  | .segments ps =>
    if (u.authority.map (·.host)).all fun h => h.isEmpty || h == "localhost" then
      let path := Utf8.decodeLossy (ps.flatMap fun p => Utf8.encode "/" ++ percentDecode p.toList)
      some (if endsInDrive path.toList then path ++ "/" else path)
    else none

/-- The URL that a system identifier stands for: itself, or the URL of the path. A scheme of one
letter is a drive, so such an identifier is a path. -/
def ofSystemId? (current id : String) : Option Url :=
  match parse id with
  | .ok u => if u.scheme.length ≤ 1 then ofAbsolute else some u
  | .error _ => ofAbsolute
where
  /-- The URL of the identifier as a path. -/
  ofAbsolute : Option Url := (Path.absolute? current id).bind ofPath?

end Schematron.Url
