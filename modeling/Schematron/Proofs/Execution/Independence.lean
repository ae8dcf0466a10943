import Schematron.Proofs.Execution.Scoping
import Schematron.Proofs.Report.Entries

/-!
# Patterns are independent

The patterns of a validator may be run in two parts: the first part alone and then the rest alone.
The entries of the whole run are those of the first part followed by those of the second, and a run
that fails fails with the error of the first part that does. `Run.report_append_patterns` is the
law; it rests on the fact that every pattern starts from the environment of the schema.
-/
namespace Schematron

/-- A report with the entries of another one after its own. -/
def Report.followedBy (a b : Report) : Report :=
  ⟨{ a.root with children := a.root.children ++ b.entries.map Xml.Element.toNode }⟩

namespace Validator.Run
open Report Sequencing

variable {D : Type}

def withPatterns (r : Run D) (ps : List Pattern) : Run D :=
  { r with validator := { r.validator with patterns := ps } }

/-- Neither the environment of the schema nor what a pattern does in it depends on which patterns
are active. -/
theorem activations_withPatterns (r : Run D) (ps : List Pattern) :
    (r.withPatterns ps).activations = r.start >>= fun env => ps.mapM (r.activate env) := rfl

theorem reportOf_withPatterns (r : Run D) (ps : List Pattern) (as : List Activation) :
    (r.withPatterns ps).reportOf as = r.reportOf as := rfl

theorem reportOf_append (r : Run D) (as bs : List Activation) :
    r.reportOf (as ++ bs) = (r.reportOf as).followedBy (r.reportOf bs) := by
  simp only [reportOf, followedBy, entries_ofEntries, List.flatMap_append]
  simp [ofEntries, pushAll_eq]

/-- A run of two lists of patterns is a run of the first list followed by a run of the second: it
succeeds exactly if both do, and then its entries are those of the first followed by those of the
second; if it fails, it fails as the first one that does. Every binding counts in its scope alone,
as in the run that passes environments down. -/
theorem report_append_patterns (r : Run D) (ps qs : List Pattern) :
    ((r.withPatterns (ps ++ qs)).report =
      match (r.withPatterns ps).report, (r.withPatterns qs).report with
      | .ok a, .ok b => .ok (a.followedBy b)
      | .ok _, .error e => .error e
      | .error e, _ => .error e) ∧
    (r.withPatterns (ps ++ qs)).report =
      (r.withPatterns (ps ++ qs)).reportOf <$> (r.withPatterns (ps ++ qs)).activations := by
  refine ⟨?_, report_eq _⟩
  simp only [report_eq, activations_withPatterns, funext (r.reportOf_withPatterns _)]
  cases r.start with
  | error e => rfl
  | ok env =>
    simp only [ok_bind, List.mapM_append]
    cases ps.mapM (r.activate env) with
    | error e => rfl
    | ok as =>
      cases qs.mapM (r.activate env) with
      | error e => rfl
      | ok bs => simp [reportOf_append]

end Validator.Run

end Schematron
