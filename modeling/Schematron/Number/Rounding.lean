/-!
# Rounding

Rounding to whole numbers, to a number of significant binary digits, and to a number of decimal
places. A tie goes to the even neighbour.
-/
namespace Schematron.Number

/-- The nearest whole number; of two that are equally near, the even one. -/
def toEven (x : Rat) : Int :=
  let n := x.floor
  let part := x - n
  if part < 1 / 2 then n
  else if 1 / 2 < part then n + 1
  else if n % 2 = 0 then n
  else n + 1

/-- The greatest `k` for which `2 ^ k` is not greater than a positive number. -/
def binaryExponent (x : Rat) : Int :=
  let k : Int := (Nat.log2 x.num.natAbs : Int) - Nat.log2 x.den
  if x < 2 ^ k then k - 1 else k

def doubleDigits : Nat := 53

/-- The nearest number that double precision holds, for a number that is not negative and neither
too large nor too close to zero for its exponents. -/
def toDouble (x : Rat) : Rat :=
  if x ≤ 0 then 0
  else
    let unit : Rat := 2 ^ (binaryExponent x - (doubleDigits - 1))
    toEven (x / unit) * unit

/-- A number that is not negative with a fixed number of decimal places, at least one. -/
def fixed (places : Nat) (x : Rat) : String :=
  let n := (toEven (x * Nat.pow 10 places)).toNat
  let fraction := toString (n % Nat.pow 10 places)
  toString (n / Nat.pow 10 places) ++ "." ++
    String.ofList (List.replicate (places - fraction.length) '0') ++ fraction

end Schematron.Number
