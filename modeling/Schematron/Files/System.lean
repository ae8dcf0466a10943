import Schematron.Files.Name
import Schematron.Files.Path
import Schematron.Number.Basic
import Schematron.Text.Utf8

/-!
# File systems

A file system is a finite map from places to files, directories and links. A place is the list of
names from the root down, without links on the way; `FileSystem.locate` finds the place that a path
stands for, following links. `find?_put` says that putting an entry changes one place.
-/
namespace Schematron

/-- What stands at a place. -/
inductive FileEntry where
  | file (data : Bytes)
  | directory
  | link (target : String)
  deriving DecidableEq, Repr, Inhabited

/-- Why a file cannot be read or written. -/
inductive FileError where
  | notFound
  | notDirectory
  | isDirectory
  | tooManyLinks
  | nameTooLong
  | interiorNul
  | notText
  deriving DecidableEq, Repr, Inhabited

/-- The failure in words, with the number that the system has for it. -/
def FileError.message : FileError → String
  | .notFound => "No such file or directory (os error 2)"
  | .notDirectory => "Not a directory (os error 20)"
  | .isDirectory => "Is a directory (os error 21)"
  | .tooManyLinks => "Too many levels of symbolic links (os error 40)"
  | .nameTooLong => "File name too long (os error 36)"
  | .interiorNul => "file name contained an unexpected NUL byte"
  | .notText => "stream did not contain valid UTF-8"

abbrev Place := List String

/-- A file system. The root is always a directory. -/
structure FileSystem where
  entries : List (Place × FileEntry) := []
  deriving Repr, Inhabited

namespace FileSystem

/-- The longest path that can be followed, in bytes. -/
def maxPathBytes : Nat := 4095

/-- The longest name, in bytes. -/
def maxNameBytes : Nat := 255

def maxLinks : Nat := 40

def directorySize : Nat := 4096

def find? (fs : FileSystem) (place : Place) : Option FileEntry :=
  if place.isEmpty then some .directory else (fs.entries.find? (·.1 == place)).map (·.2)

def put (fs : FileSystem) (place : Place) (e : FileEntry) : FileSystem :=
  ⟨fs.entries.filter (·.1 != place) ++ [(place, e)]⟩

/-- The steps of a path; a slash at the end asks for a directory. -/
def steps (path : String) : List String :=
  let ps := (Path.split path.toList).map String.ofList
  ps.filter (! ·.isEmpty) ++ (if ps.getLast? == some "" then ["."] else [])

/-- The place that the steps from a place lead to, where at most `links` links are followed. The
last step may lead to a place where nothing stands yet. -/
def follow (fs : FileSystem) (links : Nat) (place : Place) : List String → Except FileError Place
  | [] => .ok place
  | n :: ns =>
    if fs.find? place != some .directory then .error .notDirectory
    else if n == "." then follow fs links place ns
    else if n == ".." then follow fs links place.dropLast ns
    else if maxNameBytes < n.utf8ByteSize then .error .nameTooLong
    else
      match fs.find? (place ++ [n]) with
      | none => if ns.isEmpty then .ok (place ++ [n]) else .error .notFound
      | some (.link t) =>
        match links with
        | 0 => .error .tooManyLinks
        | links + 1 => follow fs links (if Path.isAbsolute t then [] else place) (steps t ++ ns)
      | some _ => follow fs links (place ++ [n]) ns
termination_by ns => (links, ns.length)

/-- The place that a path stands for, from a current directory. -/
def locate (fs : FileSystem) (directory path : String) : Except FileError Place :=
  if path.toList.contains (Char.ofNat 0) then .error .interiorNul
  else if path.isEmpty then .error .notFound
  else if maxPathBytes < path.utf8ByteSize then .error .nameTooLong
  else do
    let start ← if Path.isAbsolute path then pure [] else follow fs maxLinks [] (steps directory)
    follow fs maxLinks start (steps path)

def entry (fs : FileSystem) (directory path : String) : Except FileError FileEntry := do
  match fs.find? (← locate fs directory path) with
  | some e => return e
  | none => throw .notFound

def read (fs : FileSystem) (directory path : String) : Except FileError Bytes := do
  match ← fs.entry directory path with
  | .file data => return data
  | _ => throw .isDirectory

def readText (fs : FileSystem) (directory path : String) : Except FileError String := do
  (Utf8.decode (← fs.read directory path)).mapError fun _ => .notText

def write (fs : FileSystem) (directory path : String) (data : Bytes) :
    Except FileError FileSystem := do
  let place ← locate fs directory path
  match fs.find? place with
  | some .directory => throw .isDirectory
  | _ => return fs.put place (.file data)

def pathExists (fs : FileSystem) (directory path : String) : Bool :=
  (fs.entry directory path).isOk

def isDirectory (fs : FileSystem) (directory path : String) : Bool :=
  match fs.entry directory path with
  | .ok .directory => true
  | _ => false

def entrySize : FileEntry → Nat
  | .file data => data.length
  | .directory => directorySize
  | .link t => t.utf8ByteSize

/-- The size of what a path leads to; zero if it leads nowhere. -/
def size (fs : FileSystem) (directory path : String) : Nat :=
  match fs.entry directory path with
  | .ok e => entrySize e
  | .error _ => 0

/-- The document that a path stands for; its size is zero if there is none. -/
def inputFile (fs : FileSystem) (directory path : String) : InputFile :=
  ⟨.ofText path, fs.size directory path⟩

def children (fs : FileSystem) (place : Place) : List (String × FileEntry) :=
  fs.entries.filterMap fun (p, e) =>
    if p.dropLast == place then p.getLast?.map fun n => (n, e) else none

/-- Makes a directory and those that it lies in, where nothing stands yet. -/
def makeDirectories (fs : FileSystem) (place : Place) : FileSystem :=
  (List.range place.length).foldl (fun fs n =>
    let p := place.take (n + 1)
    if (fs.find? p).isNone then fs.put p .directory else fs) fs

/-- Puts an entry at a place, with the directories that it lies in. -/
def putDeep (fs : FileSystem) (place : Place) (e : FileEntry) : FileSystem :=
  (fs.makeDirectories place.dropLast).put place e

/-- The bytes of all files. -/
def totalSize (fs : FileSystem) : Nat := Number.total (fs.entries.map fun e => entrySize e.2)

/-- Entries at other places are not in the way. -/
theorem find?_filter_ne (l : List (Place × FileEntry)) {place p : Place} (h : p ≠ place) :
    (l.filter (·.1 != place)).find? (·.1 == p) = l.find? (·.1 == p) := by
  rw [List.find?_filter]
  congr 1
  funext x
  by_cases hx : x.1 = p
  · simp [hx, h]
  · simp [hx]

theorem find?_filter_self (l : List (Place × FileEntry)) (p : Place) :
    (l.filter (·.1 != p)).find? (·.1 == p) = none := by
  simp [List.find?_filter]

theorem find?_put (fs : FileSystem) (place p : Place) (e : FileEntry) (h : place ≠ []) :
    (fs.put place e).find? p = if p = place then some e else fs.find? p := by
  by_cases hp : p = place
  · subst hp
    simp only [find?, put, List.find?_append, find?_filter_self]
    simp [h]
  · by_cases he : p = []
    · simp [find?, he, Ne.symm h]
    · simp [find?, put, hp, he, List.find?_append, find?_filter_ne _ hp, Ne.symm hp]

end FileSystem

end Schematron
