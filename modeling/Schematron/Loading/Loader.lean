import Schematron.Cache.Store
import Schematron.Loading.Local
import Schematron.Loading.Location
import Schematron.Network.Download

/-!
# Loading

Schemas and included documents from files and servers. What is downloaded is kept in a cache, if
there is one, and asked for there first.
-/
namespace Schematron

/-- What schemas are loaded from, and when. -/
structure World where
  files : FileSystem
  /-- The current directory. -/
  directory : String
  network : Network
  now : Timestamp

/-- A loader of schemas. -/
structure Loader where
  settings : Network.Settings := {}
  policy : Cache.Policy := {}
  /-- The cache, unless downloads are not kept. -/
  cache : Option Cache.Store := none
  /-- The number of requests made so far. -/
  requests : Nat := 0
  deriving DecidableEq, Repr, Inhabited

namespace Loader

def download (l : Loader) (w : World) (url : String) : Except EngineError Bytes × Loader :=
  let (result, requests) := l.settings.download w.network url l.requests
  let l := { l with requests }
  match result, l.cache with
  | .error e, _ => (.error e, l)
  | .ok d, none => (.ok d.data, l)
  | .ok d, some c =>
    let (stored, c) := c.put l.policy w.now url d.data d.etag d.lastModified
    (stored.map (·.data), { l with cache := some c })

/-- The body of a URL, from the cache if it is there. -/
def fetch (l : Loader) (w : World) (url : String) : Except EngineError Bytes × Loader :=
  match l.cache with
  | none => l.download w url
  | some c =>
    match c.get l.policy w.now url with
    | (.error e, c) => (.error e, { l with cache := some c })
    | (.ok (some r), c) => (.ok r.data, { l with cache := some c })
    | (.ok none, c) => { l with cache := some c }.download w url

def load (l : Loader) (w : World) (location : String) :
    Except EngineError SchemaSource × Loader :=
  match Location.parse location with
  | .error e => (.error e, l)
  | .ok (.path p) => (SchemaSource.ofFile w.files w.directory p, l)
  | .ok (.remote u) =>
    let (body, l) := l.fetch w u.render
    (body.map fun data => ⟨u.render, data⟩, l)

def textOf (url : String) : Except EngineError Bytes → Except TransformError String
  | .error e => .error (.unresolved url e.message)
  | .ok data => (Utf8.decode data).mapError fun f => .unresolved url f.message

def resolve (l : Loader) (w : World) (u : Url) : Except TransformError String × Loader :=
  if u.scheme == "http" || u.scheme == "https" then
    let (body, l) := l.fetch w u.render
    (textOf u.render body, l)
  else (Inclusion.fetchFile w.files u, l)

/-- A resolver of inclusions that looks at what can be reached now. -/
def resolver (l : Loader) (w : World) : Inclusion.Resolver where
  fetch u := (l.resolve w u).1
  depth := Inclusion.targetBound w.files + w.network.size +
    (l.cache.map (·.totalSize)).getD 0 + 1

end Loader

end Schematron
