import Schematron.Text.Printable

/-!
# Escaped text

A text between quotation marks in which quotation marks, backslashes and characters that cannot be
seen are escaped.
-/
namespace Schematron.Text

def hexDigits (n : Nat) : List Char := Nat.toDigits 16 n

def escapeChar (c : Char) : List Char :=
  if c.toNat = 0 then ['\\', '0']
  else if c = '\t' then ['\\', 't']
  else if c = '\r' then ['\\', 'r']
  else if c = '\n' then ['\\', 'n']
  else if c = '"' then ['\\', '"']
  else if c = '\\' then ['\\', '\\']
  else if isCombining c || ! isPrintable c then ['\\', 'u', '\x7b'] ++ hexDigits c.toNat ++ ['\x7d']
  else [c]

/-- The text between quotation marks, escaped. -/
def quoted (s : String) : String := String.ofList ('"' :: s.toList.flatMap escapeChar ++ ['"'])

end Schematron.Text
