/-!
# Streams

What a program writes to standard output and to standard error. Texts are put one after the other on
each stream; nothing is known of how the two are mixed.
-/
namespace Schematron

/-- What has been written to standard output and to standard error. -/
@[ext] structure Streams where
  out : String := ""
  err : String := ""
  deriving DecidableEq, Repr, Inhabited

namespace Streams

def append (a b : Streams) : Streams := ⟨a.out ++ b.out, a.err ++ b.err⟩

instance : Append Streams := ⟨append⟩

@[simp] theorem out_append (a b : Streams) : (a ++ b).out = a.out ++ b.out := rfl

@[simp] theorem err_append (a b : Streams) : (a ++ b).err = a.err ++ b.err := rfl

@[simp] theorem append_empty (a : Streams) : a ++ ({} : Streams) = a :=
  Streams.ext (by simp) (by simp)

theorem append_assoc (a b c : Streams) : a ++ b ++ c = a ++ (b ++ c) :=
  Streams.ext (by simp [String.append_assoc]) (by simp [String.append_assoc])

end Streams

end Schematron
