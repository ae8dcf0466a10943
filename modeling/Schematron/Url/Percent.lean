import Schematron.Text.Hex

/-!
# Percent encoding

A byte that a part of a URL may not hold is written as `%` and two hexadecimal digits in upper case.
Which ASCII characters are written so depends on the part; every other character is, byte by byte.
-/
namespace Schematron.Url

abbrev EncodeSet := Char → Bool

/-- Control characters, and everything beyond ASCII. -/
def controlSet : EncodeSet := fun c => c.toNat < 0x20 || 0x7E < c.toNat

def fragmentSet : EncodeSet := fun c => controlSet c || [' ', '"', '<', '>', '`'].contains c

def querySet : EncodeSet := fun c => controlSet c || [' ', '"', '#', '<', '>'].contains c

def specialQuerySet : EncodeSet := fun c => querySet c || c == '\''

def pathSet : EncodeSet := fun c => fragmentSet c || ['#', '?', '\x7b', '\x7d'].contains c

def userinfoSet : EncodeSet := fun c =>
  pathSet c || ['/', ':', ';', '=', '@', '[', '\\', ']', '^', '|'].contains c

def fileSegmentSet : EncodeSet := fun c => pathSet c || ['/', '%', '\\'].contains c

def encodeByte (b : UInt8) : List Char :=
  ['%', Hex.upperDigit (b.toNat / 16), Hex.upperDigit (b.toNat % 16)]

def encodeChar (set : EncodeSet) (c : Char) : List Char :=
  if set c then (String.utf8EncodeChar c).flatMap encodeByte else [c]

def percentEncode (set : EncodeSet) (cs : List Char) : List Char := cs.flatMap (encodeChar set)

/-- The bytes that a text stands for; a percent sign without two digits stands for itself. -/
def percentDecode : List Char → Bytes
  | '%' :: a :: b :: cs =>
    match Hex.value? a, Hex.value? b with
    | some x, some y => UInt8.ofNat (16 * x + y) :: percentDecode cs
    | _, _ => String.utf8EncodeChar '%' ++ percentDecode (a :: b :: cs)
  | c :: cs => String.utf8EncodeChar c ++ percentDecode cs
  | [] => []
termination_by cs => cs.length

end Schematron.Url
