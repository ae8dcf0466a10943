import Schematron.Proofs.Text.Words
import Schematron.Proofs.Xml.Escaping
import Schematron.Xml.Document

/-!
# Line ends in written text

Carriage returns are written as they are and read as line feeds. So a text is read as `settle` says;
its words stay the same.
-/
namespace Schematron.Xml
open Schematron.Text

/-- The text that is read where characters have been written, with the last one first. -/
def settleFrom : (asIs : Bool) → (buffer : List Char) → List Char → List Char
  | _, buffer, [] => buffer
  | asIs, buffer, c :: cs =>
    if isEscaped c then settleFrom true (c :: buffer) cs
    else settleFrom false (if asIs then c :: buffer else pushText buffer c cs.isEmpty) cs

def settle (s : String) : String := String.ofList (settleFrom false [] s.toList).reverse

theorem addPieces_ofChar (expand : String → Reading → Option Reading) (asIs : Bool)
    (buffer cs : List Char) (r : Reading) :
    addPieces false expand asIs buffer (cs.map Piece.ofChar) r =
      some (r.flush (settleFrom asIs buffer cs)) := by
  induction cs generalizing asIs buffer with
  | nil => rfl
  | cons c cs ih =>
    cases he : isEscaped c <;> simp [Piece.ofChar, he, addPieces, settleFrom, ih]

theorem pushText_ne_nil (buffer : List Char) (c : Char) (isLast : Bool) :
    pushText buffer c isLast ≠ [] := by
  unfold pushText
  split
  · dsimp only
    split
    · simp
    · split <;> simp
  · split <;> simp

theorem settleFrom_ne_nil {buffer : List Char} (h : buffer ≠ []) (asIs : Bool) (cs : List Char) :
    settleFrom asIs buffer cs ≠ [] := by
  induction cs generalizing asIs buffer with
  | nil => exact h
  | cons c cs ih =>
    rw [settleFrom]
    split
    · exact ih (by simp) true
    · refine ih ?_ false
      split
      · simp
      · exact pushText_ne_nil buffer c cs.isEmpty

theorem settle_ne_empty {s : String} (h : s ≠ "") : settle s ≠ "" := by
  cases hs : s.toList with
  | nil => exact absurd (String.toList_eq_nil_iff.1 hs) h
  | cons c cs =>
    have hne : settleFrom false [] (c :: cs) ≠ [] := by
      rw [settleFrom]
      split
      · exact settleFrom_ne_nil (by simp) true cs
      · exact settleFrom_ne_nil (pushText_ne_nil [] c cs.isEmpty) false cs
    intro hempty
    rw [settle, hs] at hempty
    apply hne
    simpa using congrArg String.toList hempty

theorem mem_pushText {buffer : List Char} {c d : Char} {isLast : Bool}
    (h : d ∈ pushText buffer c isLast) : d ∈ buffer ∨ d = c ∨ d = '\n' := by
  unfold pushText at h
  split at h <;> grind

/-- Reading a text puts at most line feeds in it. -/
theorem mem_settleFrom {asIs : Bool} {buffer cs : List Char} {d : Char}
    (h : d ∈ settleFrom asIs buffer cs) : d ∈ buffer ∨ d ∈ cs ∨ d = '\n' := by
  induction cs generalizing asIs buffer with
  | nil => exact .inl h
  | cons c cs ih =>
    have hpush : d ∈ pushText buffer c cs.isEmpty → d ∈ buffer ∨ d = c ∨ d = '\n' := mem_pushText
    rw [settleFrom] at h
    rw [List.mem_cons]
    split at h
    · grind
    · split at h <;> grind

theorem IsXmlText.settle {s : String} (h : IsXmlText s) : IsXmlText (settle s) := by
  rw [IsXmlText, List.all_eq_true] at h ⊢
  intro d hd
  rw [Xml.settle, String.toList_ofList, List.mem_reverse] at hd
  rcases mem_settleFrom hd with hd | hd | rfl
  · cases hd
  · exact h d hd
  · decide

theorem pushText_eq_cons {buffer : List Char} (h : '\r' ∉ buffer) {c : Char} (hc : c ≠ '\r')
    (isLast : Bool) : pushText buffer c isLast = c :: buffer := by
  unfold pushText
  split
  · exact absurd List.mem_cons_self h
  · simp [hc]

theorem settleFrom_eq {buffer cs : List Char} (hbuffer : '\r' ∉ buffer) (hcs : '\r' ∉ cs)
    (asIs : Bool) : settleFrom asIs buffer cs = cs.reverse ++ buffer := by
  induction cs generalizing asIs buffer with
  | nil => rfl
  | cons c cs ih =>
    simp only [List.mem_cons, not_or] at hcs
    have hnext : '\r' ∉ c :: buffer := by simp [hcs.1, hbuffer]
    have hpush := pushText_eq_cons hbuffer (Ne.symm hcs.1) cs.isEmpty
    rw [settleFrom, hpush, ite_self, ih hnext hcs.2, ih hnext hcs.2, ite_self]
    simp

/-- Text without carriage returns is read as it was written. -/
theorem settle_eq_self {s : String} (h : '\r' ∉ s.toList) : settle s = s := by
  rw [settle, settleFrom_eq (by simp) h]
  simp

/-- Texts that have the same words, whatever follows. -/
def SameWords (xs ys : List Char) : Prop :=
  ∀ rest, wordsFrom [] (xs ++ rest) = wordsFrom [] (ys ++ rest)

theorem SameWords.append {xs ys : List Char} (h : SameWords xs ys) (zs : List Char) :
    SameWords (xs ++ zs) (ys ++ zs) := by
  intro rest
  rw [List.append_assoc, List.append_assoc, h]

/-- The rule for line ends puts one blank in the place of others. -/
theorem sameWords_pushText (buffer : List Char) (c : Char) (isLast : Bool) :
    SameWords (pushText buffer c isLast).reverse (buffer.reverse ++ [c]) := by
  have hfeed : isBlank '\n' = true := by decide
  have hreturn : isBlank '\r' = true := by decide
  have hskip {b : Char} (hb : isBlank b = true) (rest : List Char) :
      wordsFrom [] (b :: rest) = wordsFrom [] rest := by simp [wordsFrom, hb]
  intro rest
  unfold pushText
  -- a carriage return stays in the buffer until the character after it is known
  split
  · rename_i before
    dsimp only
    split
    · rename_i hlast
      simp only [Bool.and_eq_true, beq_iff_eq] at hlast
      simp [hlast.2, wordsFrom_append_blank, hfeed, hreturn, hskip]
    · split
      · rename_i hc
        rw [beq_iff_eq] at hc
        simp [hc, wordsFrom_append_blank, hfeed, hreturn, hskip]
      · simp [wordsFrom_append_blank, hfeed, hreturn]
  · split
    · rename_i hlast
      simp only [Bool.and_eq_true, beq_iff_eq] at hlast
      simp [hlast.2, wordsFrom_append_blank, hfeed, hreturn]
    · simp

theorem sameWords_settleFrom {buffer done : List Char} (h : SameWords buffer.reverse done)
    (asIs : Bool) (cs : List Char) :
    SameWords (settleFrom asIs buffer cs).reverse (done ++ cs) := by
  induction cs generalizing asIs buffer done with
  | nil => simpa [settleFrom] using h
  | cons c cs ih =>
    have hcons : SameWords (c :: buffer).reverse (done ++ [c]) := by
      simpa using h.append [c]
    have hpush : SameWords (pushText buffer c cs.isEmpty).reverse (done ++ [c]) := by
      intro rest
      rw [sameWords_pushText, h.append [c]]
    have hdone : done ++ c :: cs = (done ++ [c]) ++ cs := by simp
    rw [settleFrom, hdone]
    split
    · exact ih hcons true
    · split
      · exact ih hcons false
      · exact ih hpush false

/-- Reading a text changes at most its line ends. -/
theorem words_settle (s : String) : words (settle s) = words s := by
  have h : SameWords (settleFrom false [] s.toList).reverse ([] ++ s.toList) :=
    sameWords_settleFrom (fun _ => rfl) false s.toList
  have hwords := h []
  simp only [List.append_nil, List.nil_append] at hwords
  rw [words, settle, String.toList_ofList, hwords, words]

end Schematron.Xml
