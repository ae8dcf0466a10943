import Schematron.Text.Utf8

/-!
# Names of files

The path of a file as it was given or found: bytes, which need not be text.
-/
namespace Schematron

/-- The path of a file. -/
structure FilePath where
  bytes : Bytes
  deriving DecidableEq, Repr, Inhabited

namespace FilePath

def ofText (s : String) : FilePath := ⟨Utf8.encode s⟩

/-- The path as text, if it is text. -/
def text? (p : FilePath) : Option String := (Utf8.decode p.bytes).toOption

/-- The path for reading: what is not text is replaced. -/
def display (p : FilePath) : String := Utf8.decodeLossy p.bytes

def extend (p : FilePath) (suffix : String) : FilePath := ⟨p.bytes ++ Utf8.encode suffix⟩

end FilePath

/-- A document to validate, with its size in bytes. -/
structure InputFile where
  path : FilePath
  size : Nat
  deriving DecidableEq, Repr, Inhabited

end Schematron
