import Schematron.Cache.Entry
import Schematron.Cache.KeyMap
import Schematron.Error

/-!
# Downloads on disk

Bodies stand in an index and metadata beside it, so that either may be missing. An expired download
is treated as absent, and removed when it is asked for.
-/
namespace Schematron.Cache

/-- What is on disk. -/
structure Disk where
  /-- Whether there is a directory. -/
  hasDirectory : Bool := false
  /-- The bodies by key; none if nothing has been written or removed since the directory was
  cleared. -/
  index : Option (KeyMap Bytes) := none
  /-- The metadata by key; none for metadata that can not be read. -/
  metadata : KeyMap (Option Metadata) := []
  deriving DecidableEq, Repr, Inhabited

namespace Disk

def body? (d : Disk) (key : String) : Option Bytes := d.index.bind fun m => m.get? key

def put (d : Disk) (key : String) (data : Bytes) (m : Metadata) : Disk where
  hasDirectory := true
  index := some ((d.index.getD []).insert key data)
  metadata := d.metadata.insert key (some m)

/-- Replaces the metadata of a key; none for metadata that can not be read. -/
def putMetadata (d : Disk) (key : String) (m : Option Metadata) : Disk :=
  { d with hasDirectory := true, metadata := d.metadata.insert key m }

def dropMetadata (d : Disk) (key : String) : Disk :=
  { d with metadata := d.metadata.erase key }

def remove (d : Disk) (key : String) : Disk where
  hasDirectory := true
  index := some ((d.index.getD []).erase key)
  metadata := d.metadata.erase key

/-- The download of a key that has not expired. -/
def get (d : Disk) (now : Timestamp) (key : String) :
    Except EngineError (Option Resource) × Disk :=
  match d.metadata.get? key with
  | none => (.ok none, d)
  | some none => (.error (.cache "Failed to parse cache metadata"), d)
  | some (some m) =>
    if m.isExpired now then (.ok none, d.remove key)
    else (.ok ((d.body? key).map fun data => ⟨data, m⟩), d)

/-- Whether a key has metadata that can be read and has expired. -/
def hasExpired (d : Disk) (now : Timestamp) (key : String) : Bool :=
  match d.metadata.get? key with
  | some (some m) => m.isExpired now
  | _ => false

/-- Removes every expired download; the number of those removed. -/
def purge (d : Disk) (now : Timestamp) : Except EngineError Nat × Disk :=
  match d.index with
  | none => (.error (.cache "Failed to read cache index"), d)
  | some m =>
    let expired := (m.map (·.1)).filter (d.hasExpired now)
    (.ok expired.length, expired.foldl remove d)

/-- Removes everything but the directory, which must exist. -/
def clear (d : Disk) : Except EngineError Unit × Disk :=
  if d.hasDirectory then (.ok (), { hasDirectory := true })
  else (.error (.cache "Failed to clear disk cache"), d)

def size (d : Disk) : Nat := (d.index.getD []).length

end Disk

end Schematron.Cache
