/-!
# Numerals

Integers as they are written by hand: decimal digits after a sign, with any number of leading
zeros.
-/
namespace Schematron.Numeral

def value (ds : List Char) : Nat := ds.foldl (fun n c => 10 * n + (c.toNat - '0'.toNat)) 0

/-- The value of a text of decimal digits; there is at least one. -/
def digits? (cs : List Char) : Option Nat :=
  if ! cs.isEmpty && cs.all Char.isDigit then some (value cs) else none

/-- A natural number below a bound, which may have a plus sign. -/
def natural? (bound : Nat) (s : String) : Option Nat :=
  (digits? (match s.toList with
    | '+' :: cs => cs
    | cs => cs)).filter (· < bound)

/-- A number from zero up to a bound, which may have either sign, so that zero may be negative. -/
def signedNatural? (bound : Nat) (s : String) : Option Nat :=
  match s.toList with
  | '-' :: cs => (digits? cs).filter (· == 0)
  | _ => natural? bound s

end Schematron.Numeral
