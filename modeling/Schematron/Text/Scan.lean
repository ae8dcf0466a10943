/-!
# Scanners

A scanner reads a value from the front of a text and leaves the rest, or refuses. The readers of
XML, JSON, TOML and of command lists are built from the few scanners here. Repetition needs no
fuel: `Scan.many` goes on only while its item makes the text shorter.
-/
namespace Schematron.Text

abbrev Scan (α : Type) := StateT (List Char) Option α

namespace Scan

/-- Refuses every text. -/
def fail {α : Type} : Scan α := fun _ => none

/-- The next character, which stays in the text. -/
def peek : Scan (Option Char) := fun cs => some (cs.head?, cs)

/-- The text that is left, which stays. -/
def rest : Scan (List Char) := fun cs => some (cs, cs)

def atEnd : Scan Bool := fun cs => some (cs.isEmpty, cs)

def next : Scan Char
  | [] => none
  | c :: cs => some (c, cs)

/-- Takes the next character if it is in the class. -/
def satisfy (p : Char → Bool) : Scan Char
  | [] => none
  | c :: cs => if p c then some (c, cs) else none

def run (p : Char → Bool) : Scan (List Char) := fun cs => some (cs.takeWhile p, cs.dropWhile p)

/-- Takes the longest run of characters of a class, which must not be empty. -/
def run1 (p : Char → Bool) : Scan (List Char) := fun cs =>
  if (cs.takeWhile p).isEmpty then none else some (cs.takeWhile p, cs.dropWhile p)

/-- What follows `word` in a text that starts with it. -/
def after? : List Char → List Char → Option (List Char)
  | [], cs => some cs
  | _ :: _, [] => none
  | w :: ws, c :: cs => if w = c then after? ws cs else none

def word (w : String) : Scan Unit := fun cs => (after? w.toList cs).map fun r => ((), r)

/-- Whether a fixed word comes next; the text stays. -/
def sees (w : String) : Scan Bool := fun cs => some ((after? w.toList cs).isSome, cs)

/-- Takes a fixed word if it comes next and says whether it did. -/
def tryWord (w : String) : Scan Bool := fun cs =>
  match after? w.toList cs with
  | some r => some (true, r)
  | none => some (false, cs)

/-- The part of a text before the first occurrence of a word, and the text from that word on. -/
def splitBefore (w : List Char) : List Char → Option (List Char × List Char)
  | [] => if w.isEmpty then some ([], []) else none
  | c :: cs =>
    if (after? w (c :: cs)).isSome then some ([], c :: cs)
    else (splitBefore w cs).map fun (a, b) => (c :: a, b)

/-- Takes everything up to the first occurrence of a word, and that word. -/
def through (w : String) : Scan (List Char) := fun cs =>
  match splitBefore w.toList cs with
  | none => none
  | some (a, b) => (after? w.toList b).map fun r => (a, r)

/-- Repeats an item until it refuses; an item that takes nothing ends the repetition. -/
def many {α : Type} (item : Scan α) (cs : List Char) : Option (List α × List Char) :=
  match item cs with
  | none => some ([], cs)
  | some (a, r) =>
    if r.length < cs.length then (many item r).map fun (as, r') => (a :: as, r')
    else some ([a], r)
termination_by cs.length

/-- Reads a whole text: nothing may be left. -/
def whole? {α : Type} (item : Scan α) (cs : List Char) : Option α :=
  match item cs with
  | some (a, []) => some a
  | _ => none

theorem after?_append (w cs : List Char) : after? w (w ++ cs) = some cs := by
  induction w with
  | nil => rfl
  | cons c w ih => simp [after?, ih]

theorem eq_append_of_after? {w cs r : List Char} (h : after? w cs = some r) : cs = w ++ r := by
  induction w generalizing cs with
  | nil => simpa [after?] using h
  | cons c w ih =>
    cases cs with
    | nil => simp [after?] at h
    | cons d cs =>
      by_cases e : c = d
      · subst e
        simpa using ih (by simpa [after?] using h)
      · simp [after?, e] at h

end Scan

end Schematron.Text
