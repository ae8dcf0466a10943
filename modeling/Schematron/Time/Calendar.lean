/-!
# The calendar

Days of the proleptic Gregorian calendar, counted from the first of January 1970. Years may be
zero or negative.
-/
namespace Schematron.Calendar

/-- Whether a year has a 29th of February. -/
def isLeap (year : Int) : Bool := year % 4 == 0 && (year % 100 != 0 || year % 400 == 0)

def monthLength (year : Int) (month : Nat) : Nat :=
  if month == 2 then (if isLeap year then 29 else 28)
  else if [4, 6, 9, 11].contains month then 30
  else 31

def isDate (year : Int) (month day : Nat) : Bool :=
  1 ≤ month && month ≤ 12 && 1 ≤ day && day ≤ monthLength year month

/-- The number of days in the 400 years after which the calendar repeats. -/
def cycle : Int := 146097

/-- The day number of a date. Years are counted from March, so that the day which only leap years
have comes last. -/
def dayOf (year : Int) (month day : Nat) : Int :=
  let y := if month ≤ 2 then year - 1 else year
  let era := y / 400
  let ofEra := y % 400
  let ofYear : Int := ((153 * ((month + 9) % 12) + 2) / 5 + day - 1 : Nat)
  era * cycle + ofEra * 365 + ofEra / 4 - ofEra / 100 + ofYear - 719468

/-- The year, month and day of a day number. -/
def dateOf (n : Int) : Int × Nat × Nat :=
  let shifted := n + 719468
  let era := shifted / cycle
  let ofEra := shifted % cycle
  let y := (ofEra - ofEra / 1460 + ofEra / 36524 - ofEra / 146096) / 365
  let ofYear := ofEra - (365 * y + y / 4 - y / 100)
  let m := (5 * ofYear + 2) / 153
  let day := ofYear - (153 * m + 2) / 5 + 1
  let month := if m < 10 then m + 3 else m - 9
  (era * 400 + y + (if month ≤ 2 then 1 else 0), month.toNat, day.toNat)

end Schematron.Calendar
