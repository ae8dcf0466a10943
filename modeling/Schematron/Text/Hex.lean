import Schematron.Text.Utf8

/-!
# Hexadecimal digits

The value of a digit and the digits of a byte. Digits are read in either case; `value?_digit` and
`value?_upperDigit` say that a digit that is written is read as the value that it was written for.
-/
namespace Schematron.Hex

def value? (c : Char) : Option Nat :=
  if c.isDigit then some (c.toNat - '0'.toNat)
  else if 'a' ≤ c && c ≤ 'f' then some (c.toNat - 'a'.toNat + 10)
  else if 'A' ≤ c && c ≤ 'F' then some (c.toNat - 'A'.toNat + 10)
  else none

def isDigit (c : Char) : Bool := (value? c).isSome

/-- The digit with a value below sixteen, in lower case. -/
def digit (n : Nat) : Char :=
  if n < 10 then Char.ofNat ('0'.toNat + n) else Char.ofNat ('a'.toNat + (n - 10))

/-- The digit with a value below sixteen, in upper case. -/
def upperDigit (n : Nat) : Char :=
  if n < 10 then Char.ofNat ('0'.toNat + n) else Char.ofNat ('A'.toNat + (n - 10))

theorem value?_digit : ∀ n < 16, value? (digit n) = some n := by decide

theorem value?_upperDigit : ∀ n < 16, value? (upperDigit n) = some n := by decide

/-- The two digits of a byte, in lower case. -/
def byteDigits (b : UInt8) : List Char := [digit (b.toNat / 16), digit (b.toNat % 16)]

/-- Bytes, each as two digits. -/
def encode (bs : Bytes) : String := String.ofList (bs.flatMap byteDigits)

def decode? : List Char → Option Bytes
  | [] => some []
  | [_] => none
  | a :: b :: cs => do return UInt8.ofNat (16 * (← value? a) + (← value? b)) :: (← decode? cs)

end Schematron.Hex
