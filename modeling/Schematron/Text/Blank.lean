/-!
# Blank characters

The characters with the Unicode property `White_Space`, and what is built on them: trimming, the
words of a text and the collapsed form in which every run of blanks is one space.
-/
namespace Schematron.Text

/-- A character with the Unicode property `White_Space`. -/
def isBlank (c : Char) : Bool :=
  let n := c.toNat
  (9 ≤ n && n ≤ 13) || n == 0x20 || n == 0x85 || n == 0xA0 || n == 0x1680 ||
  (0x2000 ≤ n && n ≤ 0x200A) || n == 0x2028 || n == 0x2029 || n == 0x202F || n == 0x205F ||
  n == 0x3000

/-- A text without the blanks at its start. -/
def trimStart (cs : List Char) : List Char := cs.dropWhile isBlank

/-- A text without the blanks at its end. -/
def trimEnd (cs : List Char) : List Char := (cs.reverse.dropWhile isBlank).reverse

/-- A text without the blanks at its two ends. -/
def trim (cs : List Char) : List Char := trimEnd (trimStart cs)

/-- The string without the blanks at its two ends. -/
def trimmed (s : String) : String := String.ofList (trim s.toList)

/-- The words of a text, where `word` holds the characters of the word being read. -/
def wordsFrom (word : List Char) : List Char → List (List Char)
  | [] => if word.isEmpty then [] else [word]
  | c :: cs =>
    if isBlank c then
      if word.isEmpty then wordsFrom [] cs else word :: wordsFrom [] cs
    else wordsFrom (word ++ [c]) cs

/-- The maximal runs of characters that are not blank, in order. -/
def words (s : String) : List String := (wordsFrom [] s.toList).map String.ofList

def normalizeSpace (s : String) : String := " ".intercalate (words s)

end Schematron.Text
