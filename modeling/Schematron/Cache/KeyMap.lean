/-!
# Maps

Finite maps from keys to values, in which each key stands at most once. `get?_insert` and
`get?_erase` say what the operations do.
-/
namespace Schematron

abbrev KeyMap (α : Type) := List (String × α)

namespace KeyMap
variable {α : Type}

def get? (m : KeyMap α) (key : String) : Option α := (m.find? (·.1 == key)).map (·.2)

/-- The map without a key. -/
def erase (m : KeyMap α) (key : String) : KeyMap α := m.filter (·.1 != key)

def insert (m : KeyMap α) (key : String) (a : α) : KeyMap α := erase m key ++ [(key, a)]

theorem get?_erase_self (m : KeyMap α) (key : String) : get? (erase m key) key = none := by
  simp [get?, erase, List.find?_filter]

theorem get?_erase_of_ne (m : KeyMap α) {key k : String} (h : k ≠ key) :
    get? (erase m key) k = get? m k := by
  simp [get?, erase, List.find?_filter]
  congr 2
  funext x
  by_cases hx : x.1 = k
  · simp [hx, h]
  · simp [hx]

theorem get?_erase (m : KeyMap α) (key k : String) :
    get? (erase m key) k = if k = key then none else get? m k := by
  by_cases h : k = key
  · subst h
    simp [get?_erase_self]
  · simp [h, get?_erase_of_ne m h]

theorem get?_insert (m : KeyMap α) (key k : String) (a : α) :
    get? (insert m key a) k = if k = key then some a else get? m k := by
  by_cases h : k = key
  · subst h
    have := get?_erase_self m k
    simp only [get?, Option.map_eq_none_iff] at this
    simp [get?, insert, this]
  · have := get?_erase_of_ne m h
    simp only [get?] at this
    simp [get?, insert, h, Ne.symm h, this]

end KeyMap

end Schematron
