import Schematron.Engine.Engine
import Schematron.Proofs.Execution.Firing
import Schematron.Proofs.Execution.Reporting

/-!
# Verdicts of outcomes

The verdict of a document and its messages are kept by different steps of a validation run. A run
under way keeps them in agreement (`ValidationRun.Underway`), each of its endings leaves an outcome
in which they agree (`Outcome.Coherent`), and so does every validation that gives an outcome.
-/
namespace Schematron

/-- No message is an error exactly if the verdict is that the document is valid, and no report is
attached. -/
structure ValidationRun.Underway (r : ValidationRun) : Prop where
  verdict : r.valid = r.messages.all (! ·.isError)
  pending : r.pending = none
  retained : r.retained = none

/-- The verdict is what the messages say, the run is over, and if the engine failed, the last
message says so and there is no report. -/
structure Outcome.Coherent (o : Outcome) : Prop where
  verdict : o.valid = o.messages.all (! ·.isError)
  ended : o.state = .done ∨ o.state = .aborted
  aborted : o.state = .aborted → o.valid = false ∧ o.report = none ∧
    ∃ e : EngineError, o.messages.getLast? = some (.internal e.message)

theorem Outcome.errors_eq_zero (o : Outcome) :
    o.errors = 0 ↔ o.messages.all (! ·.isError) = true := by
  simp [errors]

namespace ValidationRun

theorem underway_start (document : String) : Underway { document := document } := ⟨rfl, rfl, rfl⟩

theorem Underway.enter {r : ValidationRun} (h : r.Underway) (s : RunState) : (r.enter s).Underway :=
  ⟨h.verdict, h.pending, h.retained⟩

theorem all_ofDiagnostic (ds : List Diagnostic) :
    (ds.map Message.ofDiagnostic).all (! ·.isError) = ! Diagnostic.anyError ds := by
  rw [List.all_map, Diagnostic.anyError, List.not_any_eq_all_not]
  rfl

theorem Underway.record {r : ValidationRun} (h : r.Underway) (ds : List Diagnostic) :
    (r.record ds).Underway where
  verdict := by
    simp only [ValidationRun.record, List.all_append, all_ofDiagnostic, h.verdict]
  pending := h.pending
  retained := h.retained

theorem Underway.recordGrammar {r : ValidationRun} (h : r.Underway) (v : GrammarVerdict) :
    (r.recordGrammar v).Underway := by
  unfold ValidationRun.recordGrammar
  dsimp only
  split
  · exact (h.record _).record _
  · exact h.record _

theorem Underway.abort {r : ValidationRun} (h : r.Underway) (e : EngineError) :
    (r.abort e).finish.Coherent := by
  have hf : (r.abort e).finish =
      ⟨r.document, false, .aborted, r.messages ++ [.internal e.message], none⟩ := by
    simp [ValidationRun.abort, finish, collect, h.pending, h.retained]
  rw [hf]
  exact ⟨by simp [Message.internal], .inr rfl, fun _ => ⟨rfl, rfl, e, by simp⟩⟩

theorem Underway.done {r : ValidationRun} (h : r.Underway) : (r.enter .done).finish.Coherent := by
  have hf : (r.enter .done).finish = ⟨r.document, r.valid, .done, r.messages, none⟩ := by
    simp [ValidationRun.enter, finish, collect, h.pending, h.retained]
  rw [hf]
  exact ⟨h.verdict, .inl rfl, nofun⟩

/-- Attaching a report keeps the agreement if verdict and messages of the report agree. -/
theorem Underway.setReport {r : ValidationRun} (h : r.Underway) {rep : Report}
    (hr : rep.isValid = (Message.ofReport rep).all (! ·.isError)) :
    ((r.setReport rep).enter .done).finish.Coherent := by
  have hf : ((r.setReport rep).enter .done).finish = ⟨r.document, r.valid && rep.isValid, .done,
      r.messages ++ Message.ofReport rep, some rep⟩ := rfl
  rw [hf]
  exact ⟨by simp [h.verdict, hr], .inl rfl, nofun⟩

end ValidationRun

namespace Engine
open ValidationRun

variable {D : Type} {p : Processor D}

theorem underway_checkGrammar {g : Option (Grammar D)} {d : D} {systemId : String}
    {run run' : ValidationRun} (h : run.Underway)
    (hc : checkGrammar p g d systemId run = .ok run') : run'.Underway := by
  cases g with
  | none =>
    cases hc
    exact h
  | some g =>
    obtain ⟨v, _, hv⟩ := Sequencing.bind_eq_ok.1 hc
    cases hv
    exact (h.enter _).recordGrammar v

theorem coherent_checkAssertions (v : Validator) (d : D) (systemId : String) {run : ValidationRun}
    (h : run.Underway) : (checkAssertions p v d systemId run).finish.Coherent := by
  unfold checkAssertions
  cases hr : Validator.Run.report ⟨p, d, systemId, v⟩ with
  | error e => exact (h.enter _).abort e
  | ok rep => exact (h.enter _).setReport (Validator.Run.isValid_of_report hr)

theorem coherent_checkDocument (g : Option (Grammar D)) (v : Validator) (d : D) (systemId : String)
    {run : ValidationRun} (h : run.Underway) :
    (checkDocument p g v d systemId run).finish.Coherent := by
  unfold checkDocument
  cases hc : checkGrammar p g d systemId run with
  | error e => exact h.abort e
  | ok run' =>
    have h' := underway_checkGrammar h hc
    cases hs : stopsBeforeAssertions g run' with
    | true => simpa [hs] using h'.done
    | false => simpa [hs] using coherent_checkAssertions v d systemId h'

theorem coherent_check (p : Processor D) (g : Option (Grammar D)) (v : Validator)
    (source : DocumentSource) : (check p g v source).Coherent := by
  have start := underway_start source.systemId
  unfold check
  cases parse p source with
  | error e => exact start.abort _
  | ok parsed =>
    have recorded := start.record parsed.diagnostics
    cases hd : parsed.document with
    | some d => simpa [hd] using coherent_checkDocument g v d source.systemId recorded
    | none =>
      cases ha : Diagnostic.anyError parsed.diagnostics with
      | true => simpa [hd, ha] using recorded.done
      | false => simpa [hd, ha] using (recorded.record _).done

theorem coherent_validate {e : Engine D} {source : DocumentSource} {o : Outcome}
    (h : (e.validate source).1 = .ok o) : o.Coherent := by
  obtain ⟨⟨g, v⟩, _, rfl⟩ := Sequencing.map_eq_ok.1 h
  exact coherent_check _ g v source

/-- The outcome of a document is valid exactly if it has no error message. Its run is over; if the
engine failed, the outcome is invalid, has no report, and its last message tells of the failure and
of no place. -/
theorem validate_outcome {e : Engine D} {source : DocumentSource} {o : Outcome}
    (h : (e.validate source).1 = .ok o) :
    (o.valid = true ↔ o.errors = 0) ∧ (o.state = .done ∨ o.state = .aborted) ∧
      (o.state = .aborted → o.valid = false ∧ o.report = none ∧
        ∃ (m : Message) (err : EngineError), o.messages.getLast? = some m ∧
          m = .internal err.message ∧ m.isError = true ∧ m.context = none ∧ m.test = none ∧
          m.location = none) := by
  have hc := coherent_validate h
  refine ⟨by rw [o.errors_eq_zero, hc.verdict], hc.ended, fun ha => ?_⟩
  obtain ⟨hv, hr, err, hm⟩ := hc.aborted ha
  exact ⟨hv, hr, _, err, hm, rfl, rfl, rfl, rfl, rfl⟩

/-- A schema that asks for a variable which nothing binds. -/
def unboundSchema : String :=
  "<schema xmlns='http://purl.oclc.org/dsdl/schematron'>" ++
    "<let name='total' value='sum($prices)'/></schema>"

def unboundEngine : Engine Unit where
  processor := Validator.Run.orderProcessor
  resolver := .ofList []
  directory := "/"
  schema := ⟨"order.sch", Utf8.encode unboundSchema⟩
  phase := none
  kind := .assertions
  validator := ⟨some {
    title := none, schemaVersion := none, phase := Compilation.allPhases, namespaces := []
    lets := [⟨"total", ⟨"sum($prices)"⟩⟩], patterns := [], diagnostics := []
    nameOfNode := ⟨"name()"⟩ }, 1⟩

def unboundOutcome : Outcome where
  document := "order.xml"
  valid := false
  state := .aborted
  messages := [.internal "Assertion evaluation failed: `sum($prices)` - Undefined variable"]
  report := none

theorem validate_outcome_unbound :
    (unboundEngine.validate (.file "order.xml")).1 = .ok unboundOutcome ∧
      unboundOutcome.state = .aborted ∧
      (unboundOutcome.valid = true ↔ unboundOutcome.errors = 0) ∧
      (unboundOutcome.state = .done ∨ unboundOutcome.state = .aborted) ∧
      (unboundOutcome.state = .aborted → unboundOutcome.valid = false ∧
        unboundOutcome.report = none ∧
        ∃ (m : Message) (err : EngineError), unboundOutcome.messages.getLast? = some m ∧
          m = .internal err.message ∧ m.isError = true ∧ m.context = none ∧ m.test = none ∧
          m.location = none) :=
  have h : (unboundEngine.validate (.file "order.xml")).1 = .ok unboundOutcome := by rfl
  ⟨h, rfl, validate_outcome h⟩

end Engine

end Schematron
