import Schematron.Number.Numeral
import Schematron.Text.Blank
import Schematron.Text.Scan
import Schematron.Time.Calendar
import Schematron.Time.Duration

/-!
# Points in time

A point in universal time, to the nanosecond, and the way it is written: a date and a time of day
with an offset, as RFC 3339 has them.
-/
namespace Schematron

/-- A point in time: seconds from the start of 1970, and nanoseconds. In a leap second there are a
thousand million nanoseconds more. -/
structure Timestamp where
  seconds : Int
  nanos : Nat
  deriving DecidableEq, Repr, Inhabited

namespace Timestamp

def perDay : Int := 86400

/-- The first second that a date can be written for. -/
def earliest : Int := Calendar.dayOf (-262143) 1 1 * perDay

/-- The last second that a date can be written for. -/
def latest : Int := (Calendar.dayOf 262142 12 31 + 1) * perDay - 1

def isAfter (a b : Timestamp) : Bool :=
  b.seconds < a.seconds || (a.seconds == b.seconds && b.nanos < a.nanos)

/-- A time with whole seconds that a date can be written for. -/
def ofSeconds? (seconds : Int) (nanos : Nat) : Option Timestamp :=
  if earliest ≤ seconds && seconds ≤ latest then some ⟨seconds, nanos⟩ else none

/-- The time after a duration, if there is a date for it. -/
def plus? (t : Timestamp) (d : Duration) : Option Timestamp :=
  let nanos := t.nanos + d.nanos
  ofSeconds? (t.seconds + (nanos / Duration.perSecond : Nat)) (nanos % Duration.perSecond)

/-- The nanoseconds from a time to a later one, negative if it is earlier. A leap second that lies
between two times of day counts. -/
def nanosSince (a b : Timestamp) : Int :=
  let leap : Nat := Duration.perSecond
  let extra : Int :=
    if b.seconds % perDay < a.seconds % perDay then (if leap ≤ b.nanos then 1 else 0)
    else if a.seconds % perDay < b.seconds % perDay then (if leap ≤ a.nanos then -1 else 0)
    else 0
  (a.seconds - b.seconds + extra) * Duration.perSecond + ((a.nanos : Int) - b.nanos)

/-- A number with zeros before it, of at least so many digits. -/
def padded (width n : Nat) : String :=
  let s := toString n
  String.ofList (List.replicate (width - s.length) '0') ++ s

/-- A year; beyond four digits, or before the year zero, it has a sign. -/
def renderYear (y : Int) : String :=
  if y < 0 then "-" ++ padded 4 y.natAbs
  else if y ≤ 9999 then padded 4 y.toNat
  else "+" ++ padded 4 y.toNat

def renderFraction (nanos : Nat) : String :=
  if nanos = 0 then ""
  else if nanos % 1000000 = 0 then "." ++ padded 3 (nanos / 1000000)
  else if nanos % 1000 = 0 then "." ++ padded 6 (nanos / 1000)
  else "." ++ padded 9 nanos

def render (t : Timestamp) : String :=
  let (year, month, day) := Calendar.dateOf (t.seconds / perDay)
  let ofDay := (t.seconds % perDay).toNat
  let leap := t.nanos / Duration.perSecond
  renderYear year ++ "-" ++ padded 2 month ++ "-" ++ padded 2 day ++ "T" ++
    padded 2 (ofDay / 3600) ++ ":" ++ padded 2 (ofDay / 60 % 60) ++ ":" ++
    padded 2 (ofDay % 60 + leap) ++ renderFraction (t.nanos % Duration.perSecond) ++ "Z"

namespace Reader
open Schematron.Text Schematron.Text.Scan

def blanks : Scan Unit := do let _ ← run isBlank

/-- A number of at most so many digits, with blanks before it. -/
def number (width : Nat) : Scan Nat := do
  blanks
  let text ← rest
  let ds := (text.takeWhile Char.isDigit).take width
  if ds.isEmpty then fail
  set (text.drop ds.length)
  return Numeral.value ds

/-- A year: four digits, or any number of them after a sign. -/
def year : Scan Int := do
  blanks
  if ← tryWord "-" then return -(Numeral.value (← run1 Char.isDigit) : Int)
  else if ← tryWord "+" then return Numeral.value (← run1 Char.isDigit)
  else return ← number 4

/-- A mark, with blanks before it. -/
def mark (w : String) : Scan Unit := do
  blanks
  word w

/-- A fraction of a second in nanoseconds; digits after the ninth do not count. -/
def fraction : Scan Nat := do
  if ← tryWord "." then
    let ds ← run1 Char.isDigit
    return Numeral.value ((ds ++ List.replicate 9 '0').take 9)
  else return 0

def twoDigits : Scan Nat := do
  let a ← satisfy Char.isDigit
  let b ← satisfy Char.isDigit
  return Numeral.value [a, b]

/-- The sign of an offset; whether it is negative. -/
def sign : Scan Bool := do
  match ← next with
  | '+' => return false
  | '-' => return true
  | c => if c == '\u2212' then return true else fail

/-- An offset from universal time, in seconds. -/
def offset : Scan Int := do
  let text ← rest
  if ((text.take 3).map Char.toUpper) == "UTC".toList then
    set (text.drop 3)
    return 0
  else if ((← peek).any fun c => c == 'Z' || c == 'z') then
    let _ ← next
    return 0
  else
    let negative ← sign
    let hours ← twoDigits
    let _ ← run fun c => c == ':' || isBlank c
    let minutes ← twoDigits
    if 23 < hours || 59 < minutes then fail
    let seconds : Int := (hours * 3600 + minutes * 60 : Nat)
    return if negative then -seconds else seconds

/-- A date, a time of day and an offset. -/
def timestamp : Scan Timestamp := do
  let y ← year
  mark "-"
  let m ← number 2
  mark "-"
  let d ← number 2
  let _ ← satisfy fun c => c == 'T' || c == 't' || c == ' '
  let hour ← number 2
  mark ":"
  let minute ← number 2
  mark ":"
  let second ← number 2
  let nanos ← fraction
  blanks
  let east ← offset
  blanks
  if ! Calendar.isDate y m d || 23 < hour || 59 < minute || 60 < second then fail
  let ofDay : Int := (hour * 3600 + minute * 60 + min second 59 : Nat)
  let leap := if second = 60 then Duration.perSecond else 0
  match (ofSeconds? (Calendar.dayOf y m d * perDay + ofDay) nanos).bind fun clock =>
      ofSeconds? (clock.seconds - east) (nanos + leap) with
  | some t => return t
  | none => fail

end Reader

def parse? (text : String) : Option Timestamp := Text.Scan.whole? Reader.timestamp text.toList

def toJson (t : Timestamp) : Json := .str t.render

def ofJson? (j : Json) : Option Timestamp := j.str?.bind parse?

end Timestamp

end Schematron
