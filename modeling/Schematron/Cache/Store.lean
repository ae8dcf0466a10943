import Schematron.Cache.Disk
import Schematron.Cache.Memory
import Schematron.Number.Basic

/-!
# The cache

Downloads are kept in memory for the lifetime of the process and on disk between runs. Memory is
asked first; what is found on disk is put into memory too. `Store.step` runs one operation at a
time, and `Store.run` a sequence of them.
-/
namespace Schematron.Cache

/-- How a cache keeps downloads. -/
structure Policy where
  /-- How long a download is kept on disk. -/
  lifetime : Duration := .ofParts 86400 0
  memory : MemoryBounds := {}
  deriving DecidableEq, Repr, Inhabited

/-- Seconds in a number of hours, counted in 64 bits. -/
def secondsOfHours (hours : UInt64) : UInt64 := hours * 3600

def Policy.ofSettings (hours memoryEntries memorySeconds : Nat) : Policy where
  lifetime := .ofParts (secondsOfHours (UInt64.ofNat hours)).toNat 0
  memory := ⟨memoryEntries, memorySeconds⟩

/-- The two tiers of a cache. -/
structure Store where
  memory : Memory := {}
  disk : Disk := {}
  deriving DecidableEq, Repr, Inhabited

namespace Store

def get (s : Store) (p : Policy) (now : Timestamp) (url : String) :
    Except EngineError (Option Resource) × Store :=
  let k := key url
  match s.memory.get? p.memory now k with
  | some r => (.ok (some r), s)
  | none =>
    match s.disk.get now k with
    | (.ok (some r), disk) => (.ok (some r), ⟨s.memory.put p.memory now k r, disk⟩)
    | (answer, disk) => (answer, { s with disk })

def put (s : Store) (p : Policy) (now : Timestamp) (url : String) (data : Bytes)
    (etag lastModified : Option String) : Except EngineError Resource × Store :=
  match Metadata.ofDownload? now url data.length p.lifetime with
  | none => (.error (.cache "the time of expiry is out of range"), s)
  | some m =>
    let m := { m with etag, lastModified }
    let k := key url
    let r : Resource := ⟨data, m⟩
    (.ok r, ⟨s.memory.put p.memory now k r, s.disk.put k data m⟩)

def remove (s : Store) (url : String) : Store :=
  ⟨s.memory.forget (key url), s.disk.remove (key url)⟩

/-- Removes the expired downloads from disk; the number of those removed. -/
def purge (s : Store) (now : Timestamp) : Except EngineError Nat × Store :=
  let (answer, disk) := s.disk.purge now
  (answer, { s with disk })

def clear (s : Store) : Except EngineError Unit × Store :=
  let (answer, disk) := s.disk.clear
  (answer, ⟨{}, disk⟩)

/-- The number of bytes in all bodies, and of bodies. -/
def totalSize (s : Store) : Nat :=
  let onDisk := (s.disk.index.getD []).map fun (_, data) => data.length + 1
  let inMemory := s.memory.entries.map fun (_, r, _) => r.data.length + 1
  Number.total (onDisk ++ inMemory)

def restart (s : Store) : Store := { disk := s.disk }

end Store

/-- What is asked of a cache, or happens to it. -/
inductive Operation where
  | get (url : String)
  | put (url : String) (data : Bytes) (etag lastModified : Option String)
  | remove (url : String)
  | purge
  | clear
  /-- A new process opens the directory. -/
  | restart
  /-- Memory loses a download by itself. -/
  | forget (url : String)
  deriving DecidableEq, Repr, Inhabited

/-- What an operation answers. -/
inductive Answer where
  | found (result : Except EngineError (Option Resource))
  | stored (result : Except EngineError Resource)
  | purged (result : Except EngineError Nat)
  | cleared (result : Except EngineError Unit)
  | done

namespace Store

def step (s : Store) (p : Policy) (now : Timestamp) : Operation → Answer × Store
  | .get url => let (a, s) := s.get p now url; (.found a, s)
  | .put url data etag lastModified =>
    let (a, s) := s.put p now url data etag lastModified
    (.stored a, s)
  | .remove url => (.done, s.remove url)
  | .purge => let (a, s) := s.purge now; (.purged a, s)
  | .clear => let (a, s) := s.clear; (.cleared a, s)
  | .restart => (.done, s.restart)
  | .forget url => (.done, { s with memory := s.memory.forget (key url) })

/-- Runs operations, each at its time; the answers in order, and the cache afterwards. -/
def run (s : Store) (p : Policy) : List (Timestamp × Operation) → List Answer × Store
  | [] => ([], s)
  | (now, op) :: ops =>
    let (a, s) := s.step p now op
    let (as, s) := s.run p ops
    (a :: as, s)

end Store

end Schematron.Cache
