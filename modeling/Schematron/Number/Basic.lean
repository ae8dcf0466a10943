/-!
# Counts

How many numbers fit a word, and sums of counts.
-/
namespace Schematron.Number

/-- How many numbers a word of some bits can hold. -/
def capacity (bits : Nat) : Nat := Nat.pow 2 bits

def total (ns : List Nat) : Nat := ns.foldr (· + ·) 0

end Schematron.Number
