import Schematron.Rules.Selection
import Mathlib.Data.List.Induction

/-!
# Closed texts

A text is closed if it ends outside of literals and closes every bracket that it opens. `IsClosed`
says so by the shape of the text. The scan for the bars of a context knows only whether it is in a
literal and how many brackets are open, of whatever kind; it stands at the top exactly after closed
texts (`isClosed_iff_isTop`).
-/
namespace Schematron.Selection

def isQuote (c : Char) : Bool := c == '\'' || c == '"'

def isOpening (c : Char) : Bool := c == '(' || c == '['

def isClosing (c : Char) : Bool := c == ')' || c == ']'

/-- A character that a scan for bars looks at, other than a bar. -/
def isMark (c : Char) : Bool := isQuote c || isOpening c || isClosing c

/-- A text that ends outside of literals and in which every bracket that is opened is closed. What is
in a literal does not count, and neither does a closing bracket without an opening one. -/
inductive IsClosed : List Char → Prop where
  | nil : IsClosed []
  | char {c : Char} {cs : List Char} (hquote : isQuote c = false) (hopening : isOpening c = false)
      (rest : IsClosed cs) : IsClosed (c :: cs)
  | literal {q : Char} {inside cs : List Char} (hquote : isQuote q = true) (hinside : q ∉ inside)
      (rest : IsClosed cs) : IsClosed (q :: inside ++ q :: cs)
  | group {o c : Char} {inside cs : List Char} (hopening : isOpening o = true)
      (hclosing : isClosing c = true) (hinside : IsClosed inside) (rest : IsClosed cs) :
      IsClosed (o :: inside ++ c :: cs)

namespace Place
variable {p : Place} {c q : Char} {cs inside : List Char} {d : Nat}

def after (p : Place) (cs : List Char) : Place := cs.foldl step p

@[simp] theorem after_nil (p : Place) : p.after [] = p := rfl

@[simp] theorem after_cons (p : Place) (c : Char) (cs : List Char) :
    p.after (c :: cs) = (p.step c).after cs := rfl

@[simp] theorem after_append (p : Place) (xs ys : List Char) :
    p.after (xs ++ ys) = (p.after xs).after ys := List.foldl_append

def within (d : Nat) : Place := ⟨none, d⟩

theorem isTop_iff : p.isTop = true ↔ p = within 0 := by
  obtain ⟨quote, depth⟩ := p
  cases quote <;> simp [isTop, within]

theorem step_quote (hq : isQuote q = true) : (within d).step q = ⟨some q, d⟩ := by
  have hq' : q = '\'' ∨ q = '"' := by simpa [isQuote] using hq
  rcases hq' with rfl | rfl <;> rfl

theorem step_opening (hc : isOpening c = true) : (within d).step c = within (d + 1) := by
  have hc' : c = '(' ∨ c = '[' := by simpa [isOpening] using hc
  rcases hc' with rfl | rfl <;> rfl

theorem step_closing (hc : isClosing c = true) : (within d).step c = within (d - 1) := by
  have hc' : c = ')' ∨ c = ']' := by simpa [isClosing] using hc
  rcases hc' with rfl | rfl <;> rfl

theorem step_other (hc : isMark c = false) : (within d).step c = within d := by
  simp only [isMark, isQuote, isOpening, isClosing, Bool.or_eq_false_iff,
    beq_eq_false_iff_ne] at hc
  simp [step, within, hc]

/-- A scan is in no literals but those that begin with a quotation mark. -/
def IsSound (p : Place) : Prop := ∀ q ∈ p.quote, isQuote q = true

theorem IsSound.step (hp : p.IsSound) (c : Char) : (p.step c).IsSound := by
  obtain ⟨quote, depth⟩ := p
  cases quote with
  | none =>
    unfold Place.step
    dsimp only
    split
    · rename_i hquote
      rintro q ⟨⟩
      simpa [isQuote] using hquote
    · split
      · exact nofun
      · split <;> exact nofun
  | some q =>
    unfold Place.step
    dsimp only
    split
    · exact nofun
    · exact hp

theorem isSound_after (cs : List Char) : (Place.after {} cs).IsSound := by
  induction cs using List.reverseRecOn with
  | nil => exact nofun
  | append_singleton cs c ih => simpa using ih.step c

/-- Only quotation marks and brackets lead to another place. -/
theorem IsSound.step_eq_self (hp : p.IsSound) (hc : isMark c = false) : p.step c = p := by
  obtain ⟨quote, depth⟩ := p
  cases quote with
  | none => exact step_other hc
  | some q =>
    have hne : c ≠ q := by
      rintro rfl
      simp [isMark, hp c rfl] at hc
    simp [Place.step, hne]

/-- A literal goes on up to the next mark of the kind that it begins with. -/
theorem after_inside (hq : q ∉ inside) : (⟨some q, d⟩ : Place).after inside = ⟨some q, d⟩ := by
  induction inside with
  | nil => rfl
  | cons c cs ih =>
    obtain ⟨hc, hcs⟩ := not_or.1 (List.mem_cons.not.1 hq)
    simpa [step, Ne.symm hc] using ih hcs

theorem after_literal (hquote : isQuote q = true) (hq : q ∉ inside) (cs : List Char) :
    (within d).after (q :: inside ++ q :: cs) = (within d).after cs := by
  rw [List.cons_append, after_cons, step_quote hquote, after_append, after_inside hq, after_cons]
  simp [step, within]

end Place

open Place

variable {cs : List Char}

/-- No bracket is open after a closed text that was not open before. -/
theorem IsClosed.after_within (h : IsClosed cs) (d : Nat) :
    ∃ d' ≤ d, (within d).after cs = within d' := by
  induction h generalizing d with
  | nil => exact ⟨d, Nat.le_refl d, rfl⟩
  | @char c cs hquote hopening _ ih =>
    rw [after_cons]
    cases hclosing : isClosing c with
    | true =>
      obtain ⟨d', hle, hafter⟩ := ih (d - 1)
      rw [step_closing hclosing]
      exact ⟨d', Nat.le_trans hle (Nat.sub_le d 1), hafter⟩
    | false =>
      rw [step_other (by simp [isMark, hquote, hopening, hclosing])]
      exact ih d
  | literal hquote hinside _ ih =>
    rw [after_literal hquote hinside]
    exact ih d
  | group hopening hclosing _ _ ihinside ih =>
    obtain ⟨d', hle, hafter⟩ := ihinside (d + 1)
    obtain ⟨d'', hle', hafter'⟩ := ih (d' - 1)
    rw [List.cons_append, after_cons, step_opening hopening, after_append, hafter, after_cons,
      step_closing hclosing]
    exact ⟨d'', by omega, hafter'⟩

/-- A text that closes so many brackets more than it opens. -/
def Closes : Nat → List Char → Prop
  | 0, cs => IsClosed cs
  | d + 1, cs => ∃ xs c ys, cs = xs ++ c :: ys ∧ IsClosed xs ∧ isClosing c = true ∧ Closes d ys

/-- What may stand before a closed text may stand before a text that closes brackets. -/
theorem Closes.prepend {d : Nat} (h : Closes d cs) (pre : List Char)
    (hpre : ∀ xs, IsClosed xs → IsClosed (pre ++ xs)) : Closes d (pre ++ cs) := by
  cases d with
  | zero => exact hpre cs h
  | succ d =>
    obtain ⟨xs, c, ys, rfl, hxs, hc, hys⟩ := h
    exact ⟨pre ++ xs, c, ys, (List.append_assoc ..).symm, hpre xs hxs, hc, hys⟩

/-- A scan that reaches the top has met the end of each literal and of each bracket. The induction is
on the length of the text, since a literal is taken as a whole. -/
theorem closes_of_after (d : Nat) (cs : List Char) (h : (within d).after cs = within 0) :
    Closes d cs := by
  match cs with
  | [] =>
    obtain rfl : d = 0 := congrArg Place.depth h
    exact .nil
  | c :: cs =>
    rw [after_cons] at h
    cases hquote : isQuote c with
    | true =>
      rw [step_quote hquote] at h
      by_cases hc : c ∈ cs
      · obtain ⟨inside, rest, rfl, hinside⟩ := List.eq_append_cons_of_mem hc
        rw [← step_quote hquote, ← after_cons, ← List.cons_append,
          after_literal hquote hinside] at h
        have ih := closes_of_after d rest h
        have hliteral := ih.prepend (c :: inside ++ [c]) fun xs hxs => by
          simpa using IsClosed.literal hquote hinside hxs
        simpa using hliteral
      · rw [after_inside hc] at h
        cases h
    | false =>
      cases hopening : isOpening c with
      | true =>
        rw [step_opening hopening] at h
        obtain ⟨inside, c', rest, rfl, hinside, hclosing, hrest⟩ := closes_of_after (d + 1) cs h
        have hgroup := hrest.prepend (c :: inside ++ [c']) fun xs hxs => by
          simpa using IsClosed.group hopening hclosing hinside hxs
        simpa using hgroup
      | false =>
        cases hclosing : isClosing c with
        | true =>
          rw [step_closing hclosing] at h
          have ih := closes_of_after (d - 1) cs h
          cases d with
          | zero => exact .char hquote hopening ih
          | succ d => exact ⟨[], c, cs, rfl, .nil, hclosing, ih⟩
        | false =>
          rw [step_other (by simp [isMark, hquote, hopening, hclosing])] at h
          have ih := closes_of_after d cs h
          exact ih.prepend [c] fun xs hxs => .char hquote hopening hxs
termination_by cs.length

/-- The scan for bars stands at the top exactly after closed texts. -/
theorem isClosed_iff_isTop : IsClosed cs ↔ (Place.after {} cs).isTop = true := by
  rw [isTop_iff]
  constructor
  · intro h
    obtain ⟨d, hle, hafter⟩ := h.after_within 0
    rwa [Nat.le_zero.1 hle] at hafter
  · exact closes_of_after 0 cs

theorem isClosed_cons {c : Char} (hc : isMark c = false) : IsClosed (c :: cs) ↔ IsClosed cs := by
  have hstep : Place.step {} c = {} := step_other hc
  rw [isClosed_iff_isTop, isClosed_iff_isTop, after_cons, hstep]

theorem isClosed_concat {c : Char} (hc : isMark c = false) :
    IsClosed (cs ++ [c]) ↔ IsClosed cs := by
  rw [isClosed_iff_isTop, isClosed_iff_isTop, after_append, after_cons, after_nil,
    (isSound_after cs).step_eq_self hc]

end Schematron.Selection
