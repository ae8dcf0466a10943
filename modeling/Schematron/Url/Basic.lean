import Schematron.Url.Host

/-!
# URLs

A URL as its parts, each in the form in which it is written. A URL without a hierarchy has an
opaque path and cannot serve as a base for relative references.
-/
namespace Schematron

/-- What stands between the double slash and the path. -/
structure Url.Authority where
  /-- User name and password with the `@` after them, or nothing. -/
  userinfo : String
  host : String
  port : Option Nat
  deriving DecidableEq, Repr, Inhabited

/-- The path of a URL. -/
inductive Url.Path where
  /-- A text without a hierarchy. -/
  | opaquePath (text : String)
  /-- Segments, each after a slash. -/
  | segments (parts : List String)
  deriving DecidableEq, Repr, Inhabited

/-- A URL. -/
structure Url where
  scheme : String
  authority : Option Url.Authority
  path : Url.Path
  query : Option String
  fragment : Option String
  deriving DecidableEq, Repr, Inhabited

namespace Url

def defaultPort? (scheme : String) : Option Nat :=
  match scheme with
  | "http" | "ws" => some 80
  | "https" | "wss" => some 443
  | "ftp" => some 21
  | _ => none

/-- The three kinds of scheme that are parsed differently. -/
inductive Kind where
  | file
  | special
  | other
  deriving DecidableEq, Repr, Inhabited

def Kind.ofScheme (scheme : String) : Kind :=
  if scheme == "file" then .file
  else if (defaultPort? scheme).isSome then .special
  else .other

def Kind.isSpecial : Kind → Bool
  | .other => false
  | _ => true

/-- Whether the URL has no hierarchy. -/
def isOpaque (u : Url) : Bool :=
  match u.path with
  | .opaquePath _ => true
  | .segments _ => false

def Authority.render (a : Authority) : String :=
  "//" ++ a.userinfo ++ a.host ++
    match a.port with
    | some p => ":" ++ toString p
    | none => ""

def Path.render : Path → String
  | .opaquePath t => t
  | .segments ps => String.join (ps.map ("/" ++ ·))

/-- What is written before a path: its authority, or the mark that keeps an empty first segment from
being taken for one. -/
def renderAuthority (u : Url) : String :=
  match u.authority, u.path with
  | some a, _ => a.render
  | none, .segments ("" :: _ :: _) => "/."
  | none, _ => ""

def render (u : Url) : String :=
  u.scheme ++ ":" ++ u.renderAuthority ++ u.path.render ++
    (match u.query with
    | some q => "?" ++ q
    | none => "") ++
    match u.fragment with
    | some f => "#" ++ f
    | none => ""

/-- The URL without its fragment. -/
def withoutFragment (u : Url) : Url := { u with fragment := none }

end Url

end Schematron
