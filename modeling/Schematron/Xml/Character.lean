/-!
# XML character classes

The productions `Char`, `S`, `NameStartChar` and `NameChar` of XML 1.0 (fifth edition). A colon is
a name character here; splitting a name at its colon is the scanner's work.
-/
namespace Schematron.Xml

/-- A character that a document may contain. -/
def isXmlChar (c : Char) : Bool :=
  let n := c.toNat
  if n < 0x20 then n == 9 || n == 10 || n == 13 else n != 0xFFFE && n != 0xFFFF

/-- White space in markup: space, tab, line feed and carriage return. -/
def isXmlSpace (c : Char) : Bool := c == ' ' || c == '\t' || c == '\n' || c == '\r'

/-- The ranges of `NameStartChar` beyond ASCII. -/
def nameStartRanges : List (Nat × Nat) :=
  [(0xC0, 0xD6), (0xD8, 0xF6), (0xF8, 0x2FF), (0x370, 0x37D), (0x37F, 0x1FFF), (0x200C, 0x200D),
    (0x2070, 0x218F), (0x2C00, 0x2FEF), (0x3001, 0xD7FF), (0xF900, 0xFDCF), (0xFDF0, 0xFFFD),
    (0x10000, 0xEFFFF)]

/-- The ranges that `NameChar` adds beyond ASCII. -/
def nameExtraRanges : List (Nat × Nat) := [(0xB7, 0xB7), (0x300, 0x36F), (0x203F, 0x2040)]

def inRanges (n : Nat) (ranges : List (Nat × Nat)) : Bool :=
  ranges.any fun (lo, hi) => lo ≤ n && n ≤ hi

/-- A character that may start a name. -/
def isNameStart (c : Char) : Bool :=
  c.isAlpha || c == ':' || c == '_' || inRanges c.toNat nameStartRanges

/-- A character that may stand in a name. -/
def isNameChar (c : Char) : Bool :=
  isNameStart c || c.isDigit || c == '-' || c == '.' || inRanges c.toNat nameExtraRanges

end Schematron.Xml
