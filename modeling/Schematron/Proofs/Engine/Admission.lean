import Schematron.Proofs.Engine.Preparation
import Schematron.Proofs.Engine.Verdict

/-!
# Documents that are checked for assertions

A document reaches its assertions if everything before them has passed (`Admitted`). Whichever way
its validation ends, the outcome gives an account of what happened (`Accounts`): it has a report
exactly if the document was admitted and the assertions could be evaluated, and its messages are
what was reported on the way, in order, with at most one message of the engine's own at the end
(`OwnMessage`).
-/
namespace Schematron.Engine

variable {D : Type} {p : Processor D} {g : Option (Grammar D)} {v : Validator}
  {source : DocumentSource}

def parseDiagnostics (p : Processor D) (source : DocumentSource) : List Diagnostic :=
  match parse p source with
  | .ok parsed => parsed.diagnostics
  | .error _ => []

/-- What checking a source against the grammar reports; nothing if there is no grammar or no
document, or if the check itself fails. -/
def grammarDiagnostics (p : Processor D) (g : Option (Grammar D)) (source : DocumentSource) :
    List Diagnostic :=
  match g, parse p source with
  | some grammar, .ok ⟨_, some d⟩ =>
    match p.checkGrammar grammar.document d with
    | some c => if c.code < 0 then [] else c.diagnostics
    | none => []
  | _, _ => []

/-- A grammar accepts a document, of which parsing reported diagnostics, without any error. -/
def Conforms (p : Processor D) (grammar : Grammar D) (ds : List Diagnostic) (d : D) : Prop :=
  Diagnostic.anyError ds = false ∧ ∃ c, p.checkGrammar grammar.document d = some c ∧
    Diagnostic.anyError c.diagnostics = false ∧ c.code = 0

/-- A source is parsed into a document, and the grammar, if there is one, accepts it. -/
def Admitted (p : Processor D) (g : Option (Grammar D)) (source : DocumentSource) (d : D) : Prop :=
  ∃ ds, parse p source = .ok ⟨ds, some d⟩ ∧ ∀ grammar, g = some grammar → Conforms p grammar ds d

/-- What the engine itself may say at the end of a run that stops in a state. -/
inductive OwnMessage (p : Processor D) (g : Option (Grammar D)) (source : DocumentSource) :
    RunState → Option Message → Prop where
  | nothing : OwnMessage p g source .done none
  /-- There is no document, and no error says why. -/
  | unparsed {ds} (parsed : parse p source = .ok ⟨ds, none⟩)
      (quiet : Diagnostic.anyError ds = false) : OwnMessage p g source .done
        (some (.ofDiagnostic (.ofError "document could not be parsed")))
  /-- The grammar rejects the document, and no error says why. -/
  | rejected {ds d grammar c} (parsed : parse p source = .ok ⟨ds, some d⟩)
      (checked : g = some grammar) (answer : p.checkGrammar grammar.document d = some c)
      (code : 0 < c.code) (quiet : Diagnostic.anyError ds = false)
      (silent : Diagnostic.anyError c.diagnostics = false) : OwnMessage p g source .done
        (some (.ofDiagnostic (.ofError "document does not conform to the grammar")))
  | aborted (e : EngineError) : OwnMessage p g source .aborted (some (.internal e.message))

/-- An outcome tells of everything that happened to a source, and of nothing else. -/
structure Accounts (p : Processor D) (g : Option (Grammar D)) (v : Validator)
    (source : DocumentSource) (o : Outcome) : Prop where
  report : ∀ r, o.report = some r ↔
    ∃ d, Admitted p g source d ∧ Validator.Run.report ⟨p, d, source.systemId, v⟩ = .ok r
  messages : ∃ own, OwnMessage p g source o.state own ∧ (o.report.isSome = true → own = none) ∧
    o.messages = (parseDiagnostics p source).map Message.ofDiagnostic ++
      (grammarDiagnostics p g source).map Message.ofDiagnostic ++
      o.report.elim [] Message.ofReport ++ own.toList

section Endings
variable {run : ValidationRun}

theorem finish_of_underway (h : run.Underway) :
    run.finish = ⟨run.document, run.valid, run.state, run.messages, none⟩ := by
  simp [ValidationRun.finish, ValidationRun.collect, h.pending, h.retained]

theorem finish_abort (h : run.Underway) (e : EngineError) : (run.abort e).finish =
    ⟨run.document, false, .aborted, run.messages ++ [.internal e.message], none⟩ := by
  simp [ValidationRun.abort, ValidationRun.finish, ValidationRun.collect, h.pending, h.retained]

theorem finish_checkAssertions_ok {d : D} {systemId : String} {r : Report}
    (h : Validator.Run.report ⟨p, d, systemId, v⟩ = .ok r) :
    (checkAssertions p v d systemId run).finish =
      ⟨run.document, run.valid && r.isValid, .done, run.messages ++ Message.ofReport r,
        some r⟩ := by
  simp only [checkAssertions, h]
  rfl

theorem finish_checkAssertions_error {d : D} {systemId : String} {e : EngineError}
    (hrun : run.Underway) (h : Validator.Run.report ⟨p, d, systemId, v⟩ = .error e) :
    (checkAssertions p v d systemId run).finish =
      ⟨run.document, false, .aborted, run.messages ++ [.internal e.message], none⟩ := by
  simp only [checkAssertions, h]
  exact finish_abort (hrun.enter .assertionPhase) e

def rejection? (quiet : Bool) (c : GrammarCheck) : Option Message :=
  if quiet && ! Diagnostic.anyError c.diagnostics && c.code != 0 then
    some (.ofDiagnostic (.ofError "document does not conform to the grammar"))
  else none

/-- The run after the check of its document against the grammar has given a verdict. -/
theorem recordGrammar_verdict (run : ValidationRun) (c : GrammarCheck) :
    run.recordGrammar (Grammar.verdict c) = { run with
      messages := run.messages ++ c.diagnostics.map Message.ofDiagnostic ++
        (rejection? run.valid c).toList
      valid := run.valid && ! Diagnostic.anyError c.diagnostics && c.code == 0 } := by
  have herror : Diagnostic.anyError
      [.ofError "document does not conform to the grammar"] = true := rfl
  by_cases hcode : c.code = 0
  · cases hv : run.valid <;> cases ha : Diagnostic.anyError c.diagnostics <;>
      simp [ValidationRun.recordGrammar, ValidationRun.record, Grammar.verdict, Tolerance.fails,
        rejection?, hv, ha, hcode]
  · cases hv : run.valid <;> cases ha : Diagnostic.anyError c.diagnostics <;>
      simp [ValidationRun.recordGrammar, ValidationRun.record, Grammar.verdict, Tolerance.fails,
        rejection?, hv, ha, hcode, herror]

end Endings

/-- A source that is not admitted gets no report. -/
theorem accounts_of_refused {o : Outcome} {own : Option Message}
    (refused : ¬ ∃ d, Admitted p g source d) (report : o.report = none)
    (said : OwnMessage p g source o.state own)
    (messages : o.messages = (parseDiagnostics p source).map Message.ofDiagnostic ++
      (grammarDiagnostics p g source).map Message.ofDiagnostic ++ own.toList) :
    Accounts p g v source o where
  report r := by
    rw [report]
    refine ⟨nofun, ?_⟩
    rintro ⟨d, hd, _⟩
    exact absurd ⟨d, hd⟩ refused
  messages := by
    refine ⟨own, said, by simp [report], ?_⟩
    rw [messages, report, Option.elim_none, List.append_nil]

theorem accounts_unread {e : ProcessorError} (h : parse p source = .error e) :
    Accounts p g v source (check p g v source) := by
  have ho : check p g v source = ⟨source.systemId, false, .aborted,
      [.internal (EngineError.ofProcessor e).message], none⟩ := by
    unfold check
    rw [h]
    exact finish_abort (ValidationRun.underway_start _) _
  have hg : grammarDiagnostics p g source = [] := by
    cases g <;> simp [grammarDiagnostics, h]
  rw [ho]
  refine accounts_of_refused ?_ rfl (.aborted (.ofProcessor e)) ?_
  · rintro ⟨d, ds, hp, _⟩
    rw [h] at hp
    cases hp
  · simp [parseDiagnostics, hg, h]

theorem accounts_unparsed {ds : List Diagnostic} (h : parse p source = .ok ⟨ds, none⟩) :
    Accounts p g v source (check p g v source) := by
  have refused : ¬ ∃ d, Admitted p g source d := by
    rintro ⟨d, ds', hp, _⟩
    rw [h] at hp
    cases hp
  have hp : parseDiagnostics p source = ds := by simp [parseDiagnostics, h]
  have hg : grammarDiagnostics p g source = [] := by
    cases g <;> simp [grammarDiagnostics, h]
  have underway := (ValidationRun.underway_start source.systemId).record ds
  unfold check
  rw [h]
  cases ha : Diagnostic.anyError ds with
  | true =>
    simp only [ha, if_true]
    rw [finish_of_underway (underway.enter .done)]
    refine accounts_of_refused refused rfl .nothing ?_
    simp [ValidationRun.enter, ValidationRun.record, hp, hg]
  | false =>
    simp only [ha, Bool.false_eq_true, if_false]
    rw [finish_of_underway ((underway.record _).enter .done)]
    refine accounts_of_refused refused rfl (.unparsed h ha) ?_
    simp [ValidationRun.enter, ValidationRun.record, hp, hg]

section Parsed
variable {ds : List Diagnostic} {d : D} {grammar : Grammar D} {run : ValidationRun}

theorem admitted_iff (h : parse p source = .ok ⟨ds, some d⟩) (d' : D) : Admitted p g source d' ↔
    d' = d ∧ ∀ grammar, g = some grammar → Conforms p grammar ds d := by
  constructor
  · rintro ⟨ds', hp, hc⟩
    rw [h] at hp
    cases hp
    exact ⟨rfl, hc⟩
  · rintro ⟨rfl, hc⟩
    exact ⟨ds, h, hc⟩

theorem not_admitted (h : parse p source = .ok ⟨ds, some d⟩) (hc : ¬ Conforms p grammar ds d) :
    ¬ ∃ d, Admitted p (some grammar) source d := by
  rintro ⟨d', hd⟩
  exact hc (((admitted_iff h d').1 hd).2 grammar rfl)

/-- A document that is admitted is checked for assertions. -/
theorem accounts_checkAssertions (h : parse p source = .ok ⟨ds, some d⟩) (hrun : run.Underway)
    (admitted : Admitted p g source d)
    (messages : run.messages = (parseDiagnostics p source).map Message.ofDiagnostic ++
      (grammarDiagnostics p g source).map Message.ofDiagnostic) :
    Accounts p g v source (checkAssertions p v d source.systemId run).finish := by
  cases hr : Validator.Run.report ⟨p, d, source.systemId, v⟩ with
  | ok rep =>
    rw [finish_checkAssertions_ok hr]
    refine ⟨fun r => ?_, none, .nothing, fun _ => rfl, by simp [messages]⟩
    constructor
    · intro heq
      cases heq
      exact ⟨d, admitted, hr⟩
    · rintro ⟨d', hd, hr'⟩
      obtain ⟨rfl, _⟩ := (admitted_iff h d').1 hd
      rw [hr] at hr'
      cases hr'
      rfl
  | error e =>
    rw [finish_checkAssertions_error hrun hr]
    refine ⟨fun r => ?_, some (.internal e.message), .aborted e, nofun, by simp [messages]⟩
    refine ⟨nofun, ?_⟩
    rintro ⟨d', hd, hr'⟩
    obtain ⟨rfl, _⟩ := (admitted_iff h d').1 hd
    rw [hr] at hr'
    cases hr'

/-- A document whose check against the grammar fails is refused. -/
theorem accounts_unchecked (h : parse p source = .ok ⟨ds, some d⟩)
    (failed : ∀ c, p.checkGrammar grammar.document d = some c → c.code < 0) :
    Accounts p (some grammar) v source (check p (some grammar) v source) := by
  have refused : ¬ Conforms p grammar ds d := by
    rintro ⟨_, c, hc, _, hcode⟩
    have := failed c hc
    omega
  have hp : parseDiagnostics p source = ds := by simp [parseDiagnostics, h]
  have hg : grammarDiagnostics p (some grammar) source = [] := by
    cases hc : p.checkGrammar grammar.document d with
    | none => simp [grammarDiagnostics, h, hc]
    | some c => simp [grammarDiagnostics, h, hc, failed c hc]
  obtain ⟨e, he⟩ : ∃ e, grammar.validate p d source.systemId = .error e := by
    cases hc : p.checkGrammar grammar.document d with
    | none =>
      simp only [Grammar.validate, hc]
      exact ⟨_, rfl⟩
    | some c =>
      simp only [Grammar.validate, hc, failed c hc, if_true]
      exact ⟨_, rfl⟩
  have underway := (ValidationRun.underway_start source.systemId).record ds
  have ho : check p (some grammar) v source = ((ValidationRun.record
      { document := source.systemId } ds).abort e).finish := by
    simp only [check, h, checkDocument, checkGrammar, he]
    rfl
  rw [ho, finish_abort underway]
  refine accounts_of_refused (not_admitted h refused) rfl (.aborted e) ?_
  simp [ValidationRun.record, hp, hg]

/-- A document that the grammar has checked goes on exactly if it conforms. -/
theorem accounts_verdict (h : parse p source = .ok ⟨ds, some d⟩) {c : GrammarCheck}
    (hc : p.checkGrammar grammar.document d = some c) (hcode : ¬ c.code < 0)
    (hrun : run.Underway)
    (valid : run.valid =
      (! Diagnostic.anyError ds && ! Diagnostic.anyError c.diagnostics && c.code == 0))
    (messages : run.messages = ds.map Message.ofDiagnostic ++
      c.diagnostics.map Message.ofDiagnostic ++
      (rejection? (! Diagnostic.anyError ds) c).toList) :
    Accounts p (some grammar) v source
      (if stopsBeforeAssertions (some grammar) run then run.enter .done
        else checkAssertions p v d source.systemId run).finish := by
  have hp : parseDiagnostics p source = ds := by simp [parseDiagnostics, h]
  have hg : grammarDiagnostics p (some grammar) source = c.diagnostics := by
    simp [grammarDiagnostics, h, hc, hcode]
  have conforms : Conforms p grammar ds d ↔ run.valid = true := by
    rw [valid]
    constructor
    · rintro ⟨hds, c', hc', hcs, hzero⟩
      rw [hc] at hc'
      cases hc'
      simp [hds, hcs, hzero]
    · intro hv
      simp only [Bool.and_eq_true, Bool.not_eq_true', beq_iff_eq] at hv
      exact ⟨hv.1.1, c, hc, hv.1.2, hv.2⟩
  cases hv : run.valid with
  | true =>
    have admitted : Admitted p (some grammar) source d := by
      refine (admitted_iff h d).2 ⟨rfl, ?_⟩
      rintro _ ⟨⟩
      exact conforms.2 hv
    have silent : rejection? (! Diagnostic.anyError ds) c = none := by
      have hzero : c.code = 0 := by
        obtain ⟨_, c', hc', _, hzero⟩ := conforms.2 hv
        rw [hc] at hc'
        cases hc'
        exact hzero
      simp [rejection?, hzero]
    have goes : stopsBeforeAssertions (some grammar) run = false := by
      simp [stopsBeforeAssertions, hv]
    rw [goes]
    refine accounts_checkAssertions h hrun admitted ?_
    rw [messages, silent, hp, hg, Option.toList_none, List.append_nil]
  | false =>
    have refused : ¬ Conforms p grammar ds d := by simp [conforms, hv]
    have stops : stopsBeforeAssertions (some grammar) run = true := by
      simp [stopsBeforeAssertions, hv]
    have said : OwnMessage p (some grammar) source .done
        (rejection? (! Diagnostic.anyError ds) c) := by
      unfold rejection?
      split
      · rename_i quiet
        simp only [Bool.and_eq_true, Bool.not_eq_true', bne_iff_ne] at quiet
        exact .rejected h rfl hc (by omega) quiet.1.1 quiet.1.2
      · exact .nothing
    rw [stops, if_pos rfl, finish_of_underway (hrun.enter .done)]
    refine accounts_of_refused (not_admitted h refused) rfl said ?_
    rw [hp, hg]
    exact messages

theorem accounts_checked (h : parse p source = .ok ⟨ds, some d⟩) {c : GrammarCheck}
    (hc : p.checkGrammar grammar.document d = some c) (hcode : ¬ c.code < 0) :
    Accounts p (some grammar) v source (check p (some grammar) v source) := by
  have hv : grammar.validate p d source.systemId = .ok (Grammar.verdict c) := by
    simp [Grammar.validate, hc, hcode]
  have start := (ValidationRun.underway_start source.systemId).record ds
  have underway := (start.enter .grammarPhase).recordGrammar (Grammar.verdict c)
  have verdict := recordGrammar_verdict
    ((ValidationRun.record { document := source.systemId } ds).enter .grammarPhase) c
  simp only [check, h, checkDocument, checkGrammar, hv, Sequencing.ok_bind, Sequencing.pure_eq_ok]
  exact accounts_verdict h hc hcode underway (by rw [verdict]; rfl) (by rw [verdict]; rfl)

/-- A document is admitted as it is if there is no grammar. -/
theorem accounts_ungoverned (h : parse p source = .ok ⟨ds, some d⟩) :
    Accounts p none v source (check p none v source) := by
  have start := (ValidationRun.underway_start source.systemId).record ds
  have admitted : Admitted p none source d := (admitted_iff h d).2 ⟨rfl, nofun⟩
  simp only [check, h]
  refine accounts_checkAssertions h start admitted ?_
  simp [ValidationRun.record, parseDiagnostics, grammarDiagnostics, h]

end Parsed

theorem accounts_check (p : Processor D) (g : Option (Grammar D)) (v : Validator)
    (source : DocumentSource) : Accounts p g v source (check p g v source) := by
  cases h : parse p source with
  | error e => exact accounts_unread h
  | ok parsed =>
    obtain ⟨ds, document⟩ := parsed
    cases document with
    | none => exact accounts_unparsed h
    | some d =>
      cases g with
      | none => exact accounts_ungoverned h
      | some grammar =>
        cases hc : p.checkGrammar grammar.document d with
        | none => exact accounts_unchecked h (by simp [hc])
        | some c =>
          by_cases hcode : c.code < 0
          · refine accounts_unchecked h fun c' hc' => ?_
            rw [hc] at hc'
            cases hc'
            exact hcode
          · exact accounts_checked h hc hcode

/-- A prepared engine gives an outcome for every source. It has a report exactly if the source was
parsed, the grammar, if the schema is one, accepted the document without any error, and the
assertions could be evaluated. Its messages are what parsing reported, what checking the document
against the grammar reported, and what the report tells, followed by at most one message of the
engine's own, and by none if there is a report. -/
theorem report_eq_some_iff_admitted {e e' : Engine D} (h : e.prepare = (.ok (), e'))
    (source : DocumentSource) :
    ∃ g v o, e'.HasGrammar g ∧ e'.HasValidator v ∧ e'.validate source = (.ok o, e') ∧
      (∀ r, o.report = some r ↔ ∃ d, Admitted e'.processor g source d ∧
        Validator.Run.report ⟨e'.processor, d, source.systemId, v⟩ = .ok r) ∧
      (∃ own, OwnMessage e'.processor g source o.state own ∧ (o.report.isSome = true → own = none) ∧
        o.messages = (parseDiagnostics e'.processor source).map Message.ofDiagnostic ++
          (grammarDiagnostics e'.processor g source).map Message.ofDiagnostic ++
          o.report.elim [] Message.ofReport ++ own.toList) ∧
      (e'.kind = .grammar → o.report.isSome = true →
        Diagnostic.anyError (parseDiagnostics e'.processor source) = false ∧
          Diagnostic.anyError (grammarDiagnostics e'.processor g source) = false) := by
  have hok : e.prepare.1 = .ok () := by rw [h]
  have hsnd : e.prepare.2 = e' := by rw [h]
  obtain ⟨g, v, hg, hv⟩ := has_of_prepare hok
  rw [hsnd] at hg hv
  have accounts := accounts_check e'.processor g v source
  refine ⟨g, v, _, hg, hv, validate_of_has hg hv source, accounts.report, accounts.messages, ?_⟩
  intro hkind hsome
  obtain ⟨r, hr⟩ := Option.isSome_iff_exists.1 hsome
  obtain ⟨d, ⟨ds, hparse, hconforms⟩, _⟩ := (accounts.report r).1 hr
  obtain ⟨grammar, rfl⟩ := Option.isSome_iff_exists.1 (hg.isSome_iff.2 hkind)
  obtain ⟨hquiet, c, hc, hsilent, hcode⟩ := hconforms grammar rfl
  simp [parseDiagnostics, grammarDiagnostics, hparse, hc, hcode, hquiet, hsilent]

/-- A processor that warns when it parses the order and when it checks it against a grammar. -/
def warningProcessor : Processor Unit :=
  { Validator.Run.orderProcessor with
    parseFile := fun _ => ⟨[{ severity := .warning, message := "URI is not absolute" }], some ()⟩
    checkGrammar := fun _ _ => some ⟨0, [{ severity := .warning, message := "lax wildcard" }]⟩ }

def warningEngine : Engine Unit where
  processor := warningProcessor
  resolver := .ofList []
  directory := "/"
  schema := ⟨"order.xsd", []⟩
  phase := none
  kind := .grammar
  grammar := ⟨some ⟨(), "order.xsd"⟩, 1⟩
  validator := ⟨some Validator.Run.orderValidator, 1⟩

/-- Warnings do not keep a document from its assertions, one of which is a warning too. -/
theorem report_eq_some_iff_admitted_warning :
    warningEngine.prepare = (.ok (), warningEngine) ∧
    ∃ g v o, warningEngine.HasGrammar g ∧ warningEngine.HasValidator v ∧
      warningEngine.validate (.file "order.xml") = (.ok o, warningEngine) ∧
      (∀ r, o.report = some r ↔ ∃ d, Admitted warningProcessor g (.file "order.xml") d ∧
        Validator.Run.report ⟨warningProcessor, d, "order.xml", v⟩ = .ok r) ∧
      (∃ own, OwnMessage warningProcessor g (.file "order.xml") o.state own ∧
        (o.report.isSome = true → own = none) ∧
        o.messages = (parseDiagnostics warningProcessor (.file "order.xml")).map .ofDiagnostic ++
          (grammarDiagnostics warningProcessor g (.file "order.xml")).map .ofDiagnostic ++
          o.report.elim [] Message.ofReport ++ own.toList) ∧
      (warningEngine.kind = .grammar → o.report.isSome = true →
        Diagnostic.anyError (parseDiagnostics warningProcessor (.file "order.xml")) = false ∧
          Diagnostic.anyError (grammarDiagnostics warningProcessor g (.file "order.xml")) =
            false) :=
  have h : warningEngine.prepare = (.ok (), warningEngine) := rfl
  ⟨h, report_eq_some_iff_admitted h (.file "order.xml")⟩

example : ((warningEngine.validate (.file "order.xml")).1.toOption.map fun o =>
    o.messages.map (·.isError)) = some [false, false, false, true] := by rfl

end Schematron.Engine
