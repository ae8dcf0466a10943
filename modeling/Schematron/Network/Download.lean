import Schematron.Error
import Schematron.Network.Status
import Schematron.Number.Basic
import Schematron.Text.Utf8

/-!
# Downloads

A download asks a server again while it fails for a reason that may pass, and waits longer each
time. The network is a function from the number of a request and its URL to what comes of it.
-/
namespace Schematron

namespace Network

/-- What a server answers. -/
structure Response where
  status : Nat
  etag : Option String := none
  lastModified : Option String := none
  /-- The length of the body, where the server announces it. -/
  announced : Option Nat := none
  /-- The body in the pieces in which it arrives. -/
  chunks : List Bytes := []
  /-- Why the body ends before it is complete. -/
  broken : Option EngineError := none
  deriving DecidableEq, Repr, Inhabited

/-- What comes of a request. -/
inductive Exchange where
  | answered (r : Response)
  | failed (e : EngineError)
  deriving DecidableEq, Repr, Inhabited

end Network

/-- A network. -/
structure Network where
  exchange : Nat → String → Network.Exchange
  /-- A bound on the number of elements in all documents that it serves. -/
  size : Nat

namespace Network

/-- A network in which no request arrives. -/
def unreachable : Network where
  exchange := fun _ url => .failed (.http {
    details := "error sending request for url (" ++ url ++ ")"
    unconnected := true, unsent := true })
  size := 0

/-- How long to wait before a request is made again, in milliseconds. -/
structure Backoff where
  /-- The wait before the first retry; each further one is twice as long. -/
  first : UInt64 := 1000
  /-- The longest wait. -/
  cap : UInt64 := 30000
  deriving DecidableEq, Repr, Inhabited

namespace Backoff

/-- The greatest number of 64 bits. -/
def greatest : Nat := Number.capacity 64 - 1

/-- The product of two numbers, or the greatest number if it does not fit 64 bits. -/
def saturatingMul (a b : UInt64) : UInt64 := UInt64.ofNat (min (a.toNat * b.toNat) greatest)

/-- A power of two, or the greatest number if it does not fit 64 bits. -/
def saturatingPow (exponent : UInt32) : UInt64 :=
  UInt64.ofNat (if exponent < 64 then Number.capacity exponent.toNat else greatest)

def delay (b : Backoff) (retries : UInt32) : UInt64 :=
  min (saturatingMul b.first (saturatingPow retries)) b.cap

end Backoff

/-- How downloads are made. -/
structure Settings where
  /-- How long an answer is waited for, in seconds. -/
  timeout : Nat := 30
  /-- How many requests may follow the first. -/
  retries : Nat := 3
  backoff : Backoff := {}
  /-- The longest body that is taken, in bytes. -/
  maxBody : Nat := 64 * 1024 * 1024
  deriving DecidableEq, Repr, Inhabited

def userAgent : String := "schemanon/0.3.0"

/-- A body, with what tells later whether it has changed. -/
structure Download where
  data : Bytes
  etag : Option String := none
  lastModified : Option String := none
  deriving DecidableEq, Repr, Inhabited

/-- The pieces of a body together, as long as they are not too long. -/
def gather (limit : Nat) (data : Bytes) : List Bytes → Option Bytes
  | [] => some data
  | c :: cs => if limit < (data ++ c).length then none else gather limit (data ++ c) cs

def Response.body (r : Response) (limit : Nat) (url : String) : Except EngineError Download :=
  let tooLarge := EngineError.httpStatus url Status.tooLarge
    ("body exceeds " ++ toString limit ++ " bytes")
  if r.announced.any (limit < ·) then .error tooLarge
  else
    match gather limit [] r.chunks, r.broken with
    | none, _ => .error tooLarge
    | some _, some e => .error e
    | some data, none => .ok ⟨data, r.etag, r.lastModified⟩

/-- What a request leads to: a result, and whether another request may lead to a better one. -/
def Exchange.outcome (x : Exchange) (limit : Nat) (url : String) :
    Except EngineError Download × Bool :=
  match x with
  | .answered r =>
    if Status.isSuccess r.status then (r.body limit url, false)
    else (.error (.httpStatus url r.status (Status.phrase r.status)), Status.isServerError r.status)
  | .failed e => (.error e, e.isTransient)

/-- Makes a request and, as long as another one may lead to a better result, at most so many further
ones. The result of the last request, and the number of requests made on the network by then. -/
def download (n : Network) (limit : Nat) (url : String) : Nat → Nat →
    Except EngineError Download × Nat
  | 0, made => ((n.exchange made url).outcome limit url |>.1, made + 1)
  | retries + 1, made =>
    match (n.exchange made url).outcome limit url with
    | (_, true) => download n limit url retries (made + 1)
    | (result, false) => (result, made + 1)

/-- The waits between the requests of a download, in milliseconds. -/
def Settings.waits (s : Settings) (requests : Nat) : List UInt64 :=
  (List.range (requests - 1)).map fun n => s.backoff.delay (UInt32.ofNat n)

/-- Downloads a URL, after a number of requests on the network. -/
def Settings.download (s : Settings) (n : Network) (url : String) (made : Nat) :
    Except EngineError Download × Nat :=
  Network.download n s.maxBody url s.retries made

end Network

end Schematron
