/-!
# Slots

A slot holds a value that is built when it is first needed. A failed attempt leaves the slot empty,
so the next use tries again; once filled, a slot never builds again. Attempts are counted.
-/
namespace Schematron

/-- A value that is built on first use, and how often that was tried. -/
structure Slot (α : Type) where
  value : Option α := none
  builds : Nat := 0
  deriving Repr, Inhabited

namespace Slot
variable {α ε : Type}

/-- The value of a slot, from an attempt to build it if the slot is empty. -/
def get (s : Slot α) (attempt : Unit → Except ε α) : Except ε α × Slot α :=
  match s.value with
  | some a => (.ok a, s)
  | none =>
    match attempt () with
    | .ok a => (.ok a, ⟨some a, s.builds + 1⟩)
    | .error e => (.error e, { s with builds := s.builds + 1 })

theorem get_of_some {s : Slot α} {a : α} (h : s.value = some a) (attempt : Unit → Except ε α) :
    s.get attempt = (.ok a, s) := by simp [get, h]

theorem builds_get (s : Slot α) (attempt : Unit → Except ε α) :
    (s.get attempt).2.builds = if s.value.isSome then s.builds else s.builds + 1 := by
  cases h : s.value with
  | some a => simp [get, h]
  | none => cases h' : attempt () <;> simp [get, h, h']

end Slot

end Schematron
