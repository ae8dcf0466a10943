import Schematron.Proofs.Execution.Scoping
import Schematron.Proofs.Report.Messages

/-!
# What a run reports

A run writes that a rule fired before anything that the rule finds, so every failed assertion of its
report has a rule.
-/
namespace Schematron.Validator.Run
open Report Sequencing

variable {D : Type}

theorem isOwned_firing (f : Firing) : isOwned (f.entries.map Entry.element) = true := by
  simp [Firing.entries, isOwned, Entry.elementName]

theorem isOwned_activation (systemId : String) (a : Activation) :
    isOwned ((a.entries systemId).map Entry.element) = true := by
  have h := isOwned_flatMap _ a.firings isOwned_firing
  simpa [Activation.entries, isOwned, Entry.elementName, List.map_flatMap] using h

theorem isOwned_reportOf (r : Run D) (as : List Activation) :
    isOwned (r.reportOf as).root.elements = true := by
  rw [reportOf, elements_ofEntries, List.map_flatMap]
  refine isOwned_append ?_ (isOwned_flatMap _ as (isOwned_activation r.systemId))
  induction r.header.namespaces with
  | nil => rfl
  | cons n ns ih => simp [isOwned, isFailedAssert, is_namespaceElement, ih]

/-- The verdict of a report that a run makes is what its messages say. -/
theorem isValid_of_report {r : Run D} {rep : Report} (h : r.report = .ok rep) :
    rep.isValid = (Message.ofReport rep).all (! ·.isError) := by
  obtain ⟨as, _, rfl⟩ := report_eq_ok.1 h
  exact isValid_eq (isOwned_reportOf r as)

end Schematron.Validator.Run
