import Schematron.Message
import Schematron.Proofs.Report.Entries

/-!
# Messages of reports

The verdict of a report and its messages are read off the same entries by two functions. They agree
where every failed assertion comes after a fired rule (`isValid_eq`), which `isOwned` says: before
any fired rule a failed assertion counts for the messages and not for the verdict.
-/
namespace Schematron
open Xml

namespace Report

/-- Whether every failed assertion comes after some fired rule. -/
def isOwned : List Element → Bool
  | [] => true
  | e :: es => isFiredRule e || (! isFailedAssert e && isOwned es)

theorem isOwned_append {xs ys : List Element} (hx : isOwned xs = true) (hy : isOwned ys = true) :
    isOwned (xs ++ ys) = true := by
  induction xs with
  | nil => exact hy
  | cons x xs ih =>
    simp only [isOwned, List.cons_append, Bool.or_eq_true, Bool.and_eq_true] at hx ⊢
    rcases hx with h | ⟨h, hx⟩
    · exact .inl h
    · exact .inr ⟨h, ih hx⟩

theorem isOwned_flatMap {α : Type} (f : α → List Element) (as : List α)
    (h : ∀ a, isOwned (f a) = true) : isOwned (as.flatMap f) = true := by
  induction as with
  | nil => rfl
  | cons a as ih => exact isOwned_append (h a) ih

/-- Under a fired rule the verdict is what the messages say. -/
theorem allValid_some (rule : Element) (es : List Element) :
    allValid (some rule) es = (Message.ofEntries (some rule) es).all (! ·.isError) := by
  induction es generalizing rule with
  | nil => rfl
  | cons e es ih =>
    simp only [allValid, Message.ofEntries]
    cases hr : isFiredRule e with
    | true => simpa using ih e
    | false =>
      cases hf : isFailedAssert e with
      | false => simpa using ih rule
      | true =>
        by_cases hw : rule.attr "role" = some warningRole <;>
          simp [hw, Message.ofFailedAssert, ih]

/-- The verdict is what the messages say if every failed assertion has a rule. -/
theorem allValid_none {es : List Element} (h : isOwned es = true) :
    allValid none es = (Message.ofEntries none es).all (! ·.isError) := by
  induction es with
  | nil => rfl
  | cons e es ih =>
    cases hr : isFiredRule e with
    | true => simpa [allValid, Message.ofEntries, hr] using allValid_some e es
    | false =>
      simp only [isOwned, hr, Bool.false_or, Bool.and_eq_true, Bool.not_eq_true'] at h
      simpa [allValid, Message.ofEntries, hr, h.1] using ih h.2

theorem isValid_eq {r : Report} (h : isOwned r.root.elements = true) :
    r.isValid = (Message.ofReport r).all (! ·.isError) := allValid_none h

end Report

namespace Message

def lastRule (rule : Option Element) : List Element → Option Element
  | [] => rule
  | e :: es => lastRule (if Report.isFiredRule e then some e else rule) es

theorem ofEntries_append (rule : Option Element) (xs ys : List Element) :
    ofEntries rule (xs ++ ys) = ofEntries rule xs ++ ofEntries (lastRule rule xs) ys := by
  induction xs generalizing rule with
  | nil => rfl
  | cons x xs ih =>
    cases hr : Report.isFiredRule x with
    | true => simp [ofEntries, lastRule, hr, ih]
    | false => cases hf : Report.isFailedAssert x <;> simp [ofEntries, lastRule, hr, hf, ih]

/-- Groups of entries that do not depend on the rule before them give their messages one group after
the other. -/
theorem ofEntries_flatMap {α : Type} {f : α → List Element} {g : α → List Message} {as : List α}
    (h : ∀ a ∈ as, ∀ rule, ofEntries rule (f a) = g a) (rule : Option Element) :
    ofEntries rule (as.flatMap f) = as.flatMap g := by
  induction as generalizing rule with
  | nil => rfl
  | cons a as ih =>
    rw [List.flatMap_cons, ofEntries_append, h a List.mem_cons_self rule,
      ih fun b hb => h b (List.mem_cons_of_mem a hb), List.flatMap_cons]

theorem entryText_finding (f : Report.Finding) : entryText (Report.Entry.finding f).element =
    " ".intercalate (f.diagnostics.flatMap (fun d => Text.words d.2) ++ Text.words f.text) := by
  have h := congrArg (List.flatMap Text.words) (Report.stringValues_finding f)
  simp only [List.flatMap_map, List.flatMap_append, List.flatMap_cons, List.flatMap_nil,
    List.append_nil] at h
  rw [entryText, ← h]
  rfl

/-- The message of a failed assertion under the entry of a rule. -/
theorem ofFailedAssert_finding (context : String) (id role flag : Option String)
    (f : Report.Finding) :
    ofFailedAssert (some (Report.Entry.firedRule context id role flag).element)
        (Report.Entry.finding f).element =
      { isError := role != some warningRole, context := some context, test := some f.test,
        location := some f.location, text := " ".intercalate
          (f.diagnostics.flatMap (fun d => Text.words d.2) ++ Text.words f.text) } := by
  simp [ofFailedAssert, Report.context_firedRule, Report.role_firedRule, Report.test_finding,
    Report.location_finding, entryText_finding]

end Message

end Schematron
