import Schematron.Cache.Entry
import Schematron.Cache.KeyMap

/-!
# Downloads in memory

A map of bounded size, which gives a download back for a bounded time after it was put in. What is
in the map when it is full stays; it may lose any download at any time.
-/
namespace Schematron.Cache

/-- What is in memory, with the time at which it was put in. -/
structure Memory where
  entries : KeyMap (Resource × Timestamp) := []
  deriving DecidableEq, Repr, Inhabited

/-- The bounds of what is in memory. -/
structure MemoryBounds where
  capacity : Nat := 100
  /-- For how many seconds a download stays; it is for a thousand years at most. -/
  seconds : Nat := 3600
  deriving DecidableEq, Repr, Inhabited

namespace Memory

def isLive (b : MemoryBounds) (now putAt : Timestamp) : Bool :=
  now.nanosSince putAt < (b.seconds * Duration.perSecond : Nat)

def get? (m : Memory) (b : MemoryBounds) (now : Timestamp) (key : String) : Option Resource :=
  ((m.entries.get? key).filter fun e => isLive b now e.2).map (·.1)

def live (m : Memory) (b : MemoryBounds) (now : Timestamp) : KeyMap (Resource × Timestamp) :=
  m.entries.filter fun e => isLive b now e.2.2

/-- Puts in a download, unless there is no room for another one. -/
def put (m : Memory) (b : MemoryBounds) (now : Timestamp) (key : String) (r : Resource) : Memory :=
  let others := (m.live b now).erase key
  if others.length < b.capacity then ⟨others.insert key (r, now)⟩ else ⟨others⟩

def forget (m : Memory) (key : String) : Memory := ⟨m.entries.erase key⟩

def size (m : Memory) (b : MemoryBounds) (now : Timestamp) : Nat := (m.live b now).length

end Memory

end Schematron.Cache
