import Schematron.Json.Decode
import Schematron.Number.Basic
import Schematron.Number.Rounding

/-!
# Durations

Lengths of time in whole nanoseconds, and how they are shown: in milliseconds below a second, in
seconds below a minute, else in minutes and seconds.
-/
namespace Schematron

/-- A length of time. -/
structure Duration where
  nanos : Nat
  deriving DecidableEq, Repr, Inhabited

namespace Duration

def perSecond : Nat := 1000000000

/-- No time at all. -/
def zero : Duration := ⟨0⟩

def ofParts (secs nanos : Nat) : Duration := ⟨secs * perSecond + nanos⟩

def ofMillis (ms : Nat) : Duration := ⟨ms * 1000000⟩

def sum (ds : List Duration) : Duration := ⟨Number.total (ds.map (·.nanos))⟩

/-- The duration divided into equal parts; no parts have no duration. -/
def divided (d : Duration) (parts : Nat) : Duration := ⟨d.nanos / parts⟩

def secs (d : Duration) : Nat := d.nanos / perSecond

def rest (d : Duration) : Nat := d.nanos % perSecond

/-- The duration in seconds, in double precision. -/
def seconds (d : Duration) : Rat :=
  Number.toDouble (Number.toDouble d.secs + Number.toDouble (mkRat d.rest perSecond))

def render (d : Duration) : String :=
  let s := d.seconds
  if s < 1 then toString (d.nanos / 1000000) ++ "ms"
  else if s < 60 then Number.fixed 2 s ++ "s"
  else
    let minutes := (Number.toDouble (s / 60)).floor
    toString minutes ++ "m" ++ Number.fixed 1 (s - 60 * (s / 60).floor) ++ "s"

def toJson (d : Duration) : Json := .obj [("secs", .nat d.secs), ("nanos", .nat d.rest)]

/-- Reads a duration; no other members than its two are known. -/
def ofJson? (j : Json) : Option Duration := do
  if j.members.any fun m => m.1 != "secs" && m.1 != "nanos" then none
  match ← j.fields? ["secs", "nanos"] false with
  | [secs, nanos] =>
    let d := ofParts (← Json.required? (Json.natBelow? (Number.capacity 64)) secs)
      (← Json.required? (Json.natBelow? (Number.capacity 32)) nanos)
    if d.secs < Number.capacity 64 then some d else none
  | _ => none

end Duration

end Schematron
