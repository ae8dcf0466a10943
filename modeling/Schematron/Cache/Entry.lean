import Schematron.Cache.SipHash
import Schematron.Json.Decode
import Schematron.Json.Parser
import Schematron.Number.Basic
import Schematron.Time.Timestamp

/-!
# Cached downloads

What is known of a download that is kept, the time until which it may be used, and the key under
which it is kept.
-/
namespace Schematron.Cache

def key (url : String) : String :=
  let h := (SipHash.hash 0 0 (Utf8.encode url ++ [0xff])).toNat
  let digits := Nat.toDigits 16 h
  "resource-" ++ String.ofList (List.replicate (16 - digits.length) '0' ++ digits)

/-- What is known of a download. -/
structure Metadata where
  url : String
  storedAt : Timestamp
  expiresAt : Timestamp
  /-- The length of the body in bytes. -/
  size : Nat
  etag : Option String := none
  lastModified : Option String := none
  deriving DecidableEq, Repr, Inhabited

/-- A download with what is known of it. -/
structure Resource where
  data : Bytes
  metadata : Metadata
  deriving DecidableEq, Repr, Inhabited

namespace Metadata

/-- How long a download is kept if the time asked for is too long to count in milliseconds. -/
def fallback : Duration := .ofParts 86400 0

def lifetime (asked : Duration) : Duration :=
  if asked.nanos < Number.capacity 63 * 1000000 then asked else fallback

/-- What is known of a download when it is stored, if there is a date for its end. -/
def ofDownload? (now : Timestamp) (url : String) (size : Nat) (asked : Duration) :
    Option Metadata := do
  return { url, storedAt := now, expiresAt := ← now.plus? (lifetime asked), size }

/-- Whether a download may no longer be used. -/
def isExpired (m : Metadata) (now : Timestamp) : Bool := now.isAfter m.expiresAt

def toJson (m : Metadata) : Json :=
  .obj [("url", .str m.url), ("stored_at", m.storedAt.toJson), ("expires_at", m.expiresAt.toJson),
    ("size_bytes", .nat m.size), ("etag", .optStr m.etag), ("last_modified", .optStr m.lastModified)]

def ofJson? (j : Json) : Option Metadata := do
  match ← j.fields? ["url", "stored_at", "expires_at", "size_bytes", "etag", "last_modified"]
    false with
  | [url, storedAt, expiresAt, size, etag, lastModified] =>
    return {
      url := ← Json.required? Json.str? url
      storedAt := ← Json.required? Timestamp.ofJson? storedAt
      expiresAt := ← Json.required? Timestamp.ofJson? expiresAt
      size := ← Json.required? (Json.natBelow? (Number.capacity 64)) size
      etag := ← Json.optional? Json.str? etag
      lastModified := ← Json.optional? Json.str? lastModified }
  | _ => none

end Metadata

end Schematron.Cache
