import Schematron.Url.Basic

/-!
# Reading URLs

The rules of the URL standard for absolute URLs and for references relative to a base. `parse?`
reads an absolute URL, `join` a reference. White space around the text and tabs and line breaks in
it are dropped first. In a `file:` URL empty segments at the start of the path are dropped, and a
first segment that starts with a drive letter and a colon ends there.
-/
namespace Schematron.Url

/-- A drive letter: a letter and a colon or a bar. -/
def isDriveLetter (cs : List Char) : Bool :=
  match cs with
  | [a, b] => a.isAlpha && (b == ':' || b == '|')
  | _ => false

def isPlainDriveLetter (cs : List Char) : Bool := isDriveLetter cs && cs.getLast? == some ':'

def startsWithDriveLetter (cs : List Char) : Bool :=
  isDriveLetter (cs.take 2) && (cs[2]?).all fun c => ['/', '\\', '?', '#'].contains c

def isSlash (kind : Kind) (c : Char) : Bool := c == '/' || (kind.isSpecial && c == '\\')

def endsPath (c : Char) : Bool := c == '?' || c == '#'

def isDoubleDot (s : String) : Bool := ["..", ".%2e", "%2e.", "%2e%2e"].contains s.toLower

def isSingleDot (s : String) : Bool := [".", "%2e"].contains s.toLower

/-- The segments without the last one; a drive letter stays. -/
def shorten (kind : Kind) (done : List String) : List String :=
  match done with
  | [d] => if kind = .file && isPlainDriveLetter d.toList then done else []
  | _ => done.dropLast

/-- Adds a segment, of which a slash follows or not. -/
def addSegment (kind : Kind) (done : List String) (segment : List Char) (slashFollows : Bool) :
    List String :=
  let s := String.ofList (percentEncode pathSet segment)
  if isDoubleDot s then
    if slashFollows then shorten kind done else shorten kind done ++ [""]
  else if isSingleDot s then if slashFollows then done else done ++ [""]
  else if kind = .file && done.isEmpty && isDriveLetter s.toList then
    [String.ofList (s.toList.take 1 ++ [':'])]
  else done ++ [s]

/-- Adds the segments of a text, of which `current` has been read; gives what follows the path. -/
def addSegments (kind : Kind) (done : List String) (current : List Char) :
    List Char → List String × List Char
  | [] => (addSegment kind done current false, [])
  | c :: cs =>
    if isSlash kind c then addSegments kind (addSegment kind done current true) [] cs
    else if endsPath c then (addSegment kind done current false, c :: cs)
    else if kind = .file && done.isEmpty && isPlainDriveLetter current then
      addSegments kind [String.ofList current] [c] cs
    else addSegments kind done (current ++ [c]) cs

/-- The segments of a `file:` URL: none is empty at the start, except the only one. -/
def fileSegments (parts : List String) : List String :=
  match parts.dropWhile (·.isEmpty) with
  | [] => [""]
  | ps => ps

/-- The path that continues the given segments, and what follows it. -/
def readPath (kind : Kind) (done : List String) (cs : List Char) : List String × List Char :=
  let (parts, r) := addSegments kind done [] cs
  (if kind = .file then fileSegments parts else parts, r)

def pathStart (kind : Kind) (cs : List Char) : List String × List Char :=
  match cs with
  | [] => if kind.isSpecial then ([""], []) else ([], [])
  | c :: r =>
    if isSlash kind c then readPath kind [] r
    else if endsPath c && ! kind.isSpecial then ([], c :: r)
    else readPath kind [] (c :: r)

/-- Query and fragment, which are all that is left. -/
def queryAndFragment (kind : Kind) (cs : List Char) : Option String × Option String :=
  let encode (set : EncodeSet) (part : List Char) := String.ofList (percentEncode set part)
  let queryPart := cs.takeWhile (· != '#')
  let query := match queryPart with
    | '?' :: q =>
      some (encode (if kind.isSpecial then specialQuerySet else querySet) q)
    | _ => none
  let fragment := match cs.dropWhile (· != '#') with
    | _ :: f => some (encode fragmentSet f)
    | [] => none
  (query, fragment)

def finish (scheme : String) (authority : Option Authority) (p : Path) (rest : List Char) : Url :=
  let (query, fragment) := queryAndFragment (.ofScheme scheme) rest
  ⟨scheme, authority, p, query, fragment⟩

def withFragment (base : Url) (cs : List Char) : Url :=
  { base with fragment := some (String.ofList (percentEncode fragmentSet cs)) }

def withQuery (base : Url) (cs : List Char) : Url := finish base.scheme base.authority base.path cs

def baseSegments (base : Url) : List String :=
  match base.path with
  | .segments ps => ps
  | .opaquePath _ => []

/-- A user name and a password with the `@` after them. -/
def userinfo (cs : List Char) : String :=
  let user := cs.takeWhile (· != ':')
  let password := (cs.dropWhile (· != ':')).drop 1
  let text := percentEncode userinfoSet user ++
    if password.isEmpty then [] else ':' :: percentEncode userinfoSet password
  if text.isEmpty then "" else String.ofList (text ++ ['@'])

/-- The part of a text up to its last `@`, and the part after it. -/
def splitLastAt (cs : List Char) : Option (List Char × List Char) :=
  if cs.contains '@' then
    let after := cs.reverse.takeWhile (· != '@')
    some (cs.take (cs.length - after.length - 1), after.reverse)
  else none

/-- The host at the front of a text, up to a colon outside brackets, and the rest. -/
def splitHost (inBrackets : Bool) : List Char → List Char × List Char
  | [] => ([], [])
  | c :: cs =>
    if c == ':' && ! inBrackets then ([], c :: cs)
    else
      let (h, r) := splitHost (if c == '[' then true else if c == ']' then false else inBrackets) cs
      (c :: h, r)

/-- A port after its colon; the default port of the scheme is left out. -/
def port (scheme : String) (cs : List Char) : Except UrlError (Option Nat) :=
  if ! cs.all Char.isDigit then .error .badPort
  else
    let n := cs.foldl (fun n c => 10 * n + (c.toNat - '0'.toNat)) 0
    if 65535 < n then .error .badPort
    else .ok (if cs.isEmpty || some n = defaultPort? scheme then none else some n)

/-- The authority of a URL whose scheme is not `file`; a lone `@` may stand only at the very end. -/
def readAuthority (scheme : String) (kind : Kind) (cs : List Char) (isEnd : Bool) :
    Except UrlError Authority := do
  let (user, rest) := (splitLastAt cs).getD ([], cs)
  if cs == ['@'] && ! isEnd then throw .emptyHost
  let (hostText, portText) := splitHost false rest
  if kind = .special && hostText.isEmpty then throw .emptyHost
  let host ← if kind.isSpecial then Host.parse hostText else Host.parseOpaque hostText
  if host.isEmpty && ! portText.isEmpty then throw .emptyHost
  let portNumber ← port scheme (portText.drop 1)
  let info := userinfo user
  if host.isEmpty && ! info.isEmpty then throw .emptyHost
  return ⟨info, host, portNumber⟩

/-- A URL after the double slash of a scheme other than `file`. -/
def afterSlashes (scheme : String) (cs : List Char) : Except UrlError Url := do
  let kind := Kind.ofScheme scheme
  let isEnd := fun c => isSlash kind c || endsPath c
  let rest := cs.dropWhile fun c => ! isEnd c
  let a ← readAuthority scheme kind (cs.takeWhile fun c => ! isEnd c) rest.isEmpty
  let (parts, r) := pathStart kind rest
  return finish scheme (some a) (.segments parts) r

def hasDrive (parts : List String) : Bool := parts.head?.any fun s => isPlainDriveLetter s.toList

/-- A `file:` URL after a double slash. -/
def fileAfterSlashes (cs : List Char) : Except UrlError Url := do
  let isEnd := fun c => isSlash .file c || endsPath c
  let hostText := cs.takeWhile fun c => ! isEnd c
  let rest := cs.dropWhile fun c => ! isEnd c
  if isDriveLetter hostText || hostText.isEmpty then
    let (parts, r) := readPath .file [] (if hostText.isEmpty then rest else cs)
    return finish "file" (some ⟨"", "", none⟩) (.segments parts) r
  else
    let host ← Host.parse hostText
    let (parts, r) := pathStart .file rest
    let host := if host == "localhost" || hasDrive parts then "" else host
    return finish "file" (some ⟨"", host, none⟩) (.segments parts) r

/-- A `file:` URL after its scheme, or a reference to one. -/
def readFileUrl (base : Option Url) (cs : List Char) : Except UrlError Url :=
  let host := (base.bind (·.authority)).getD ⟨"", "", none⟩
  let fresh := fun (a : Authority) (done : List String) (cs : List Char) =>
    let (parts, r) := readPath .file done cs
    finish "file" (some a) (.segments parts) r
  match cs with
  | a :: r =>
    if isSlash .file a then
      match r with
      | b :: r' =>
        if isSlash .file b then fileAfterSlashes r' else .ok (rooted host r)
      | [] => .ok (rooted host r)
    else
      match base with
      | none => .ok (fresh ⟨"", "", none⟩ [] cs)
      | some base =>
        if a == '?' then .ok (withQuery base cs)
        else if a == '#' then .ok (withFragment base r)
        else if startsWithDriveLetter cs then .ok (fresh ⟨"", "", none⟩ [] cs)
        else .ok (fresh host (shorten .file base.baseSegments) cs)
  | [] =>
    match base with
    | none => .ok (fresh ⟨"", "", none⟩ [] [])
    | some base => .ok base.withoutFragment
where
  /-- A reference that starts with one slash. -/
  rooted (host : Authority) (r : List Char) : Url :=
    let keeps := ! startsWithDriveLetter r
    let drive := ((base.map baseSegments).getD []).take 1
    let done := if keeps && hasDrive drive then drive else []
    let (parts, r) := readPath .file done r
    finish "file" (some (if keeps && ! hasDrive drive then host else ⟨"", "", none⟩))
      (.segments parts) r

/-- A reference to a URL of the same scheme, which is not `file`. -/
def relative (base : Url) (cs : List Char) : Except UrlError Url :=
  let kind := Kind.ofScheme base.scheme
  let continued := fun (done : List String) (cs : List Char) =>
    let (parts, r) := readPath kind done cs
    finish base.scheme base.authority (.segments parts) r
  match cs with
  | [] => .ok base.withoutFragment
  | c :: r =>
    if c == '?' then .ok (withQuery base cs)
    else if c == '#' then .ok (withFragment base r)
    else if c == '/' || c == '\\' then
      match r with
      | d :: r' =>
        if d == '/' || d == '\\' then
          if c == '/' && d == '/' then afterSlashes base.scheme r'
          else afterSlashes base.scheme (cs.dropWhile fun c => c == '/' || c == '\\')
        else .ok (continued [] r)
      | [] => .ok (continued [] r)
    else .ok (continued base.baseSegments.dropLast cs)

/-- A URL of a scheme that is not special, after its colon. -/
def general (scheme : String) (cs : List Char) : Except UrlError Url :=
  match cs with
  | '/' :: '/' :: r => afterSlashes scheme r
  | '/' :: r =>
    let (parts, r) := readPath .other [] r
    .ok (finish scheme none (.segments parts) r)
  | _ =>
    let text := percentEncode controlSet (cs.takeWhile fun c => ! endsPath c)
    .ok (finish scheme none (.opaquePath (String.ofList text)) (cs.dropWhile fun c => ! endsPath c))

/-- The scheme at the front of a text in lower case, and what follows its colon. -/
def scheme? (cs : List Char) : Option (String × List Char) :=
  let isSchemeChar := fun c : Char => c.isAlphanum || c == '+' || c == '-' || c == '.'
  match cs.dropWhile isSchemeChar with
  | ':' :: r =>
    if cs.head?.any (·.isAlpha) then
      some (String.ofList ((cs.takeWhile isSchemeChar).map Char.toLower), r)
    else none
  | _ => none

/-- The text of a URL without blanks around it and without tabs and line breaks. -/
def clean (s : String) : List Char :=
  let isEdge := fun c : Char => c.toNat ≤ 0x20
  ((s.toList.dropWhile isEdge).reverse.dropWhile isEdge).reverse.filter fun c =>
    c != '\t' && c != '\n' && c != '\r'

/-- Reads a URL after its scheme, relative to a base of the same scheme if there is one. -/
def withScheme (base : Option Url) (scheme : String) (cs : List Char) : Except UrlError Url :=
  match Kind.ofScheme scheme with
  | .file => readFileUrl (base.filter (·.scheme == "file")) cs
  | .other => general scheme cs
  | .special =>
    let isAnySlash := fun c => c == '/' || c == '\\'
    match base.filter (·.scheme == scheme) with
    | some base =>
      if (cs.takeWhile isAnySlash).length < 2 then relative base cs
      else afterSlashes scheme (cs.dropWhile isAnySlash)
    | none => afterSlashes scheme (cs.dropWhile isAnySlash)

def parse (s : String) : Except UrlError Url :=
  match scheme? (clean s) with
  | some (scheme, r) => withScheme none scheme r
  | none => .error .relativeWithoutBase

def join (base : Url) (s : String) : Except UrlError Url :=
  let cs := clean s
  match scheme? cs with
  | some (scheme, r) => withScheme (some base) scheme r
  | none =>
    match cs with
    | '#' :: r => .ok (withFragment base r)
    | _ =>
      if base.isOpaque then .error .relativeToOpaque
      else if base.scheme == "file" then readFileUrl (some base) cs
      else relative base cs

end Schematron.Url
