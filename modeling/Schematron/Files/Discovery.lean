import Schematron.Error
import Schematron.Files.Glob
import Schematron.Files.Name
import Schematron.Files.System
import Schematron.Text.Scan

/-!
# Finding documents

A directory is searched for files with certain endings, except below what is excluded; anything else
is taken as one document. Documents come smallest first, and by path where sizes are equal.
-/
namespace Schematron

/-- What is left out of a search: paths that match a glob, or only directories that do. -/
structure Exclusion where
  glob : Glob
  onlyDirectories : Bool
  deriving Repr, Inhabited

namespace Exclusion

/-- Whether a glob says itself at which depth it matches: it contains a slash. -/
def isAnchored (pattern : List Char) : Bool := pattern.contains '/'

/-- Whether a pattern starts with any number of directories. -/
def hasLeading (pattern : List Char) : Bool :=
  pattern = ['*', '*'] || ['*', '*', '/'].isPrefixOf pattern

/-- A pattern that matches what is inside a directory, but not the directory. -/
def insideOnly (pattern : List Char) : List Char :=
  if ['*', '*', '/'].isPrefixOf pattern.reverse then pattern ++ ['/', '*'] else pattern

/-- A pattern without a slash at its end, and whether there was one; such a pattern is for
directories. -/
def splitEnd (pattern : List Char) : List Char × Bool :=
  match pattern.reverse with
  | '/' :: '\\' :: cs => (cs.reverse, true)
  | '/' :: cs => (cs.reverse, true)
  | _ => (pattern, false)

/-- Blanks at the end of a pattern mean nothing, unless the last one is escaped. -/
def withoutBlanks (pattern : List Char) : List Char :=
  if [' ', '\\'].isPrefixOf pattern.reverse then pattern else Text.trimEnd pattern

/-- Reads an exclusion. A pattern without a slash matches at any depth, one that starts with a slash
only at the top. -/
def parse (pattern : String) : Except GlobError Exclusion := do
  let cs := withoutBlanks pattern.toList
  let top := cs.head? == some '/'
  let (cs, onlyDirectories) := splitEnd (if top then cs.tail else cs)
  let cs := if top || isAnchored cs || hasLeading cs then cs else ['*', '*', '/'] ++ cs
  return ⟨← Glob.parse (String.ofList (insideOnly cs)), onlyDirectories⟩

/-- Whether a path, relative to the searched directory, is excluded. -/
def covers (e : Exclusion) (path : String) (isDirectory : Bool) : Bool :=
  (isDirectory || ! e.onlyDirectories) && e.glob.accepts (Utf8.encode path)

end Exclusion

/-- How documents are searched for. -/
structure Discovery where
  /-- The endings of file names, without the dot. -/
  extensions : List String := ["xml"]
  /-- Patterns of what is left out. -/
  exclude : List String := []
  maxDepth : Option Nat := none
  followLinks : Bool := false
  deriving Repr, Inhabited

namespace Discovery

/-- Whether a name has an ending: a dot stands before the ending, and something before the dot. -/
def hasExtension (name ext : String) : Bool :=
  let e := ('.' :: ext.toList).reverse
  e.isPrefixOf name.toList.reverse && e.length < name.toList.length

def accepts (d : Discovery) (path : String) : Bool :=
  match Path.fileName? path with
  | some name => d.extensions.any (hasExtension name)
  | none => false

/-- A text without a prefix, if it has it. -/
def dropPrefix (p s : List Char) : List Char := (Text.Scan.after? p s).getD s

def isHere (path : List Char) : Bool :=
  path.head? == some '.' && (Path.parts (String.ofList path)).isEmpty

/-- The path below the searched directory `root` of a path found in it. -/
def relative (root path : String) : String :=
  let here := ['.', '/']
  let root := dropPrefix here root.toList
  let path := dropPrefix here (dropPrefix here path.toList)
  String.ofList <|
    if isHere root || ! path.contains '/' then path
    else
      match Text.Scan.after? root path with
      | some rest => dropPrefix ['/'] rest
      | none => path

/-- What a search goes by. -/
structure Search where
  files : FileSystem
  /-- The current directory. -/
  directory : String
  /-- The searched directory as it was named. -/
  root : String
  accepts : String → Bool
  exclusions : List Exclusion
  followLinks : Bool

/-- What stands under a path found in a search, and at which place; links are followed on demand. A
link to a directory around it would never end. -/
def Search.follow (s : Search) (around : List Place) (path : String) (place : Place)
    (e : FileEntry) : Except String (Place × FileEntry) :=
  match e with
  | .link _ =>
    if s.followLinks then
      match (do let p ← s.files.locate s.directory path; return (p, ← s.files.entry s.directory path)) with
      | .error (err : FileError) => .error ("IO error for operation on " ++ path ++ ": " ++ err.message)
      | .ok (p, e) =>
        if e = .directory && around.contains p then
          .error ("File system loop found: " ++ path ++ " points to an ancestor " ++
            Path.ofParts p)
        else .ok (p, e)
    else .ok (place, e)
  | _ => .ok (place, e)

/-- The documents among entries of a directory, where `descend` searches those that are directories
themselves. -/
def Search.entries (s : Search) (descend : List Place → String → Place → Except String (List InputFile))
    (around : List Place) (path : String) (place : Place) :
    List (String × FileEntry) → Except String (List InputFile)
  | [] => .ok []
  | (name, e) :: es => do
    let found := Path.join path name
    let (target, e) ← s.follow around found (place ++ [name]) e
    let here ←
      if s.exclusions.any (·.covers (relative s.root found) (e = .directory)) then pure []
      else
        match e with
        | .directory => descend around found target
        | .file data => pure (if s.accepts found then [⟨.ofText found, data.length⟩] else [])
        | .link _ => pure []
    return here ++ (← Search.entries s descend around path place es)

/-- The documents at most `depth` levels below a directory, which is inside the directories
`around`. -/
def Search.below (s : Search) : (depth : Nat) → (around : List Place) → (path : String) → Place →
    Except String (List InputFile)
  | 0, _, _, _ => .ok []
  | depth + 1, around, path, place =>
    s.entries (Search.below s depth) (place :: around) path place (s.files.children place)

/-- The order of documents: by size, then by the names on their paths. -/
def before (a b : InputFile) : Bool :=
  a.size < b.size ||
    (a.size == b.size && ! Path.isBefore b.path.display a.path.display)

def readExclusions (patterns : List String) : Except String (List Exclusion) :=
  patterns.mapM fun p =>
    (Exclusion.parse p).mapError fun e =>
      "invalid exclude pattern `" ++ p ++ "`: error parsing glob '!" ++ p ++ "': " ++ e.message

def inDirectory (d : Discovery) (fs : FileSystem) (directory root : String) :
    Except String (List InputFile) := do
  let exclusions ← readExclusions d.exclude
  -- A lone hyphen stands for standard input, which holds no files.
  if Path.parts root = ["-"] && root.toList.head? = some '-' then return []
  let place ← (fs.locate directory root).mapError (·.message)
  let s : Search := ⟨fs, directory, root, d.accepts, exclusions, d.followLinks⟩
  return (← s.below (d.maxDepth.getD (fs.entries.length + 1)) [] root place).mergeSort before

def run (d : Discovery) (fs : FileSystem) (directory input : String) :
    Except EngineError (List InputFile) :=
  if fs.isDirectory directory input then
    (d.inDirectory fs directory input).mapError (.traversal input)
  else .ok [fs.inputFile directory input]

end Discovery

end Schematron
