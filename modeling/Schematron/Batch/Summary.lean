import Schematron.Batch.Result

/-!
# Summaries

The results of a batch taken together. The exit status is 0 exactly if every document is valid.
-/
namespace Schematron

/-- The results of a batch, in the order of the inputs, and how long it took. -/
structure BatchResults where
  files : List FileResult
  elapsed : Duration
  deriving DecidableEq, Repr, Inhabited

namespace BatchResults

def total (r : BatchResults) : Nat := r.files.length

def count (r : BatchResults) (p : Verdict → Bool) : Nat := r.files.countP fun f => p f.verdict

def valid (r : BatchResults) : Nat := r.count (·.isValid)

def invalid (r : BatchResults) : Nat := r.count (·.isInvalid)

/-- For how many documents there is no answer. -/
def failed (r : BatchResults) : Nat := r.count (·.isFailed)

def average (r : BatchResults) : Duration := (Duration.sum (r.files.map (·.duration))).divided r.total

/-- Whether every document is valid. -/
def allValid (r : BatchResults) : Bool := r.valid == r.total

/-- Whether a document is invalid or has no answer. -/
def hasErrors (r : BatchResults) : Bool := 0 < r.failed || 0 < r.invalid

def exitCode (r : BatchResults) : Nat := if r.allValid then 0 else 1

/-- Documents in a second, in double precision. -/
def throughput (r : BatchResults) : Rat :=
  if 0 < r.elapsed.seconds then Number.toDouble (Number.toDouble r.total / r.elapsed.seconds) else 0

/-- All documents are valid exactly if each one is. -/
theorem allValid_iff (r : BatchResults) :
    r.allValid = true ↔ ∀ f ∈ r.files, f.verdict = .valid := by
  have h : ∀ v : Verdict, v.isValid = true ↔ v = .valid := by
    intro v
    cases v <;> simp [Verdict.isValid]
  simp [allValid, valid, count, total, List.countP_eq_length, h]

theorem exitCode_eq_zero_iff (r : BatchResults) :
    r.exitCode = 0 ↔ ∀ f ∈ r.files, f.verdict = .valid := by
  rw [← r.allValid_iff, exitCode]
  cases r.allValid <;> simp

theorem exitCode_eq_zero_or_one (r : BatchResults) : r.exitCode = 0 ∨ r.exitCode = 1 := by
  rw [exitCode]
  cases r.allValid <;> simp

end BatchResults

end Schematron
