import Schematron.Batch.Schedule
import Schematron.Proofs.Engine.Documents
import Schematron.Proofs.Engine.Sessions
import Schematron.Proofs.Execution.Firing
import Schematron.Proofs.Files.Places

/-!
# Documents that are not in one another's way

What a document comes to is a function of the state that its batch starts in: `State.outcomeOf` is
what the engine finds out about it and `State.resultOf` the result that it has alone. Work on other
documents changes what the engine has compiled and writes reports. As long as the documents are
`Apart`, neither of the two can be seen from a document: whatever state comes `After` the first one,
the engine gives the same answers, the file of the document is the same, and its report is saved at
the same place or cannot be saved for the same reason.
-/

namespace Schematron
variable {D : Type}

/-- A slot that is asked again gives the same answer. -/
theorem Slot.get_again {α ε : Type} (s : Slot α) (attempt : Unit → Except ε α) :
    ((s.get attempt).2.get attempt).1 = (s.get attempt).1 := by
  cases h : s.value with
  | some a => simp [Slot.get, h]
  | none => cases ha : attempt () <;> simp [Slot.get, h, ha]

namespace Engine

/-- An engine that answers like another one: it gives the same grammar and the same validator, or
fails alike. -/
structure Agrees (e e' : Engine D) : Prop where
  processor : e'.processor = e.processor
  directory : e'.directory = e.directory
  grammar : e'.needGrammar.1 = e.needGrammar.1
  validator : e'.needValidator.1 = e.needValidator.1

theorem needGrammar_again (e : Engine D) : e.needGrammar.2.needGrammar.1 = e.needGrammar.1 := by
  cases hk : e.kind with
  | assertions => simp [needGrammar, hk]
  | grammar =>
    have hagain := Slot.get_again e.grammar fun _ => e.compileGrammar
    simp only [needGrammar, hk]
    exact congrArg (Except.map some) hagain

theorem Agrees.refl (e : Engine D) : Agrees e e := ⟨rfl, rfl, rfl, rfl⟩

theorem Agrees.needGrammar {e e' : Engine D} (h : Agrees e e') : Agrees e e'.needGrammar.2 := by
  have hgrammar := (needGrammar_again e').trans h.grammar
  rcases hn : e'.needGrammar with ⟨g, e₁⟩
  obtain ⟨slot, rfl⟩ := needGrammar_frame hn
  rw [hn] at hgrammar
  exact ⟨h.processor, h.directory, hgrammar, h.validator⟩

theorem needGrammar_of_needValidator (e : Engine D) :
    e.needValidator.2.needGrammar.1 = e.needGrammar.1 := by
  rcases hn : e.needValidator with ⟨v, e₁⟩
  obtain ⟨slot, rfl⟩ := needValidator_frame hn
  unfold needGrammar
  cases hk : e.kind <;> rfl

theorem Agrees.needValidator {e e' : Engine D} (h : Agrees e e') :
    Agrees e e'.needValidator.2 :=
  ⟨h.processor, h.directory, (needGrammar_of_needValidator e').trans h.grammar,
    (Slot.get_again e'.validator fun _ => e'.compileRules).trans h.validator⟩

/-- What an engine answers for a document, by what it answers for the grammar and the validator. -/
theorem validate_fst (e : Engine D) (source : DocumentSource) :
    (e.validate source).1 = do
      let g ← e.needGrammar.1
      let v ← e.needValidator.1
      return check e.processor g v source := by
  rcases hg : e.needGrammar with ⟨g, e₁⟩
  obtain ⟨slot, rfl⟩ := needGrammar_frame hg
  unfold validate needAll
  rw [hg]
  cases g with
  | error err => rfl
  | ok g =>
    have hv : ({ e with grammar := slot }).needValidator.1 = e.needValidator.1 := rfl
    rcases hn : ({ e with grammar := slot }).needValidator with ⟨v, e₂⟩
    obtain ⟨slot', rfl⟩ := needValidator_frame hn
    rw [hn] at hv
    rw [← hv]
    simp only [hn]
    cases v <;> rfl

end Engine

namespace Batch
open FileResult

namespace State

/-- What an engine finds out about a document, with the files as they are. -/
def outcomeOf (s : State D) (plan : Plan D) (input : InputFile) : Except EngineError Outcome :=
  ((s.reading plan.read).engine.validate (.file input.path.display)).1

/-- The result for a document that is validated alone, with the files as they are. -/
def resultOf (s : State D) (plan : Plan D) (input : InputFile) (duration : Duration) : FileResult :=
  ((s.reading plan.read).validate plan.options.saveReports input duration).1

def reportPlace (s : State D) (input : InputFile) : Except FileError Place :=
  s.files.locate s.engine.directory (reportTarget input.path).display

end State

/-- A document has a report, which is to be saved and can be. -/
structure Saves (s : State D) (plan : Plan D) (input : InputFile) (place : Place) (data : Bytes) :
    Prop where
  asked : plan.options.saveReports = true
  completed : ∃ o report, s.outcomeOf plan input = .ok o ∧ o.report = some report ∧
    data = Utf8.encode report.render
  located : s.reportPlace input = .ok place
  free : s.files.find? place ≠ some .directory

/-- Documents whose reports are not in the way of one another. -/
structure Apart (s : State D) (inputs : List InputFile) : Prop where
  tree : s.files.IsTree
  /-- Each document is somewhere, and no report is saved there. -/
  documents : ∀ input ∈ inputs, ∃ place,
    s.files.locate s.engine.directory input.path.display = .ok place ∧
      ∀ other ∈ inputs, s.reportPlace other ≠ .ok place
  /-- No report is to be saved by way of something that is missing. -/
  reports : ∀ input ∈ inputs, s.reportPlace input ≠ .error .notFound
  /-- No two documents save their reports at one place. -/
  distinct : ∀ a ∈ inputs, ∀ b ∈ inputs, ∀ place, s.reportPlace a = .ok place →
    s.reportPlace b = .ok place → a.path = b.path

section
variable {s t : State D} {plan : Plan D} {inputs : List InputFile} {input : InputFile}

theorem outcomeOf_eq (s : State D) (plan : Plan D) (input : InputFile) :
    s.outcomeOf plan input = do
      let g ← s.engine.needGrammar.1
      let v ← s.engine.needValidator.1
      return Engine.check (s.reading plan.read).engine.processor g v
        (.file input.path.display) := by
  have hgrammar : (s.reading plan.read).engine.needGrammar.1 = s.engine.needGrammar.1 := by
    rw [State.reading, Engine.needGrammar_readingWith]
  unfold State.outcomeOf
  rw [Engine.validate_fst, hgrammar]
  rfl

/-- What a document comes to depends on its path. -/
theorem outcomeOf_congr {a b : InputFile} (h : a.path = b.path) :
    s.outcomeOf plan a = s.outcomeOf plan b := by
  unfold State.outcomeOf
  rw [h]

/-- What is saved at a place is the same, whichever document saves it. -/
theorem Apart.data_unique (h : Apart s inputs) {a b : InputFile} (ha : a ∈ inputs)
    (hb : b ∈ inputs) {place : Place} {data data' : Bytes} (hsave : Saves s plan a place data)
    (hsave' : Saves s plan b place data') : data = data' := by
  have hpath := h.distinct a ha b hb place hsave.located hsave'.located
  obtain ⟨o, report, ho, hreport, rfl⟩ := hsave.completed
  obtain ⟨o', report', ho', hreport', rfl⟩ := hsave'.completed
  rw [outcomeOf_congr hpath, ho', Except.ok.injEq] at ho
  rw [ho, hreport, Option.some.injEq] at hreport'
  rw [hreport']

/-- A state that comes of another one by any work on documents. -/
structure After (s : State D) (plan : Plan D) (inputs : List InputFile) (t : State D) : Prop where
  engine : s.engine.Agrees t.engine
  files : ∀ place, t.files.find? place = s.files.find? place ∨ ∃ input ∈ inputs, ∃ data,
    Saves s plan input place data ∧ t.files.find? place = some (.file data)

theorem After.refl (s : State D) (plan : Plan D) (inputs : List InputFile) :
    After s plan inputs s := ⟨.refl s.engine, fun _ => .inl rfl⟩

theorem After.grows (h : After s plan inputs t) (hapart : Apart s inputs) :
    s.files.Grows t.files := by
  intro place
  obtain hsame | ⟨input, _, data, hsave, hdata⟩ := h.files place
  · exact .inl hsame
  · exact .inr ⟨hsave.free, FileSystem.isLink_locate hapart.tree hsave.located, data, hdata⟩

/-- A document reads the same as before. -/
theorem After.entry (h : After s plan inputs t) (hapart : Apart s inputs)
    (hinput : input ∈ inputs) :
    t.files.entry t.engine.directory input.path.display =
      s.files.entry s.engine.directory input.path.display := by
  obtain ⟨place, hplace, hother⟩ := hapart.documents input hinput
  have hsame : t.files.locate t.engine.directory input.path.display = .ok place := by
    rw [h.engine.directory, (h.grows hapart).locate (by rw [hplace]; simp), hplace]
  have hfind : t.files.find? place = s.files.find? place := by
    obtain hsame | ⟨other, hmem, _, hsave, _⟩ := h.files place
    · exact hsame
    · exact absurd hsave.located (hother other hmem)
  rw [FileSystem.entry_of_locate hsame, FileSystem.entry_of_locate hplace, hfind]

theorem After.check (h : After s plan inputs t) (hapart : Apart s inputs) (hinput : input ∈ inputs)
    (g : Option (Grammar D)) (v : Validator) :
    Engine.check (t.reading plan.read).engine.processor g v (.file input.path.display) =
      Engine.check (s.reading plan.read).engine.processor g v (.file input.path.display) := by
  have hread := congrArg (plan.read input.path.display) (h.entry hapart hinput)
  unfold State.reading Engine.readingWith
  rw [h.engine.processor]
  exact Engine.check_readingWith_congr _ hread g v

/-- The report of a document belongs at the same place as before. -/
theorem After.reportPlace (h : After s plan inputs t) (hapart : Apart s inputs)
    (hinput : input ∈ inputs) : t.reportPlace input = s.reportPlace input := by
  unfold State.reportPlace
  rw [h.engine.directory]
  exact (h.grows hapart).locate (hapart.reports input hinput)

/-- A report is saved, or fails to be, as before. -/
theorem After.write (h : After s plan inputs t) (hapart : Apart s inputs) (hinput : input ∈ inputs)
    (data : Bytes) :
    (fun _ => ()) <$> t.files.write t.engine.directory (reportTarget input.path).display data =
      (fun _ => ()) <$>
        s.files.write s.engine.directory (reportTarget input.path).display data := by
  have hlocate := h.reportPlace hapart hinput
  cases hplace : s.reportPlace input with
  | error e =>
    rw [hplace] at hlocate
    rw [FileSystem.write_of_error hlocate, FileSystem.write_of_error hplace]
  | ok place =>
    rw [hplace] at hlocate
    rw [FileSystem.write_of_locate hlocate, FileSystem.write_of_locate hplace]
    simp only [(h.grows hapart).find?_directory]
    split <;> rfl

theorem save_of_ok {report : Report} {r : FileResult} {files : FileSystem}
    (h : t.files.write t.engine.directory (reportTarget r.path).display
      (Utf8.encode report.render) = .ok files) :
    t.save report r = ({ r with reportPath := some (reportTarget r.path) }, { t with files }) := by
  simp only [State.save, h]

/-- The result of a document whose report cannot be saved. -/
def withoutReport (r : FileResult) (e : FileError) : FileResult :=
  { r with messages := r.messages ++ [.internal ("Could not save report " ++
    ((reportTarget r.path).display ++ ": " ++ (EngineError.io e.message).message))] }

theorem save_of_error {report : Report} {r : FileResult} {e : FileError}
    (h : t.files.write t.engine.directory (reportTarget r.path).display
      (Utf8.encode report.render) = .error e) :
    ∃ err, t.save report r = (withoutReport r e, t.print { err }) := by
  simp only [State.save, h]
  exact ⟨_, rfl⟩

theorem conclude_of_report {saveReports : Bool} {o : Outcome} {report : Report}
    (hasked : saveReports = true) (hreport : o.report = some report) (duration : Duration) :
    t.conclude saveReports input duration (.ok o) =
      t.save report (.ofOutcome input o duration) := by
  simp only [State.conclude, hreport, hasked, if_true]

theorem conclude_of_none {saveReports : Bool} {o : Outcome}
    (h : saveReports = false ∨ o.report = none) (duration : Duration) :
    t.conclude saveReports input duration (.ok o) = (.ofOutcome input o duration, t) := by
  unfold State.conclude
  rcases h with h | h
  · cases hreport : o.report <;> simp [hreport, h]
  · simp [h]

theorem conclude_fst_congr {outcome : Except EngineError Outcome} (saveReports : Bool)
    (duration : Duration)
    (h : ∀ data, (fun _ => ()) <$>
        t.files.write t.engine.directory (reportTarget input.path).display data =
      (fun _ => ()) <$> s.files.write s.engine.directory (reportTarget input.path).display data) :
    (t.conclude saveReports input duration outcome).1 =
      (s.conclude saveReports input duration outcome).1 := by
  cases outcome with
  | error e => rfl
  | ok o =>
  cases hreport : o.report with
  | none => rw [conclude_of_none (.inr hreport), conclude_of_none (.inr hreport)]
  | some report =>
  cases saveReports with
  | false => rw [conclude_of_none (.inl rfl), conclude_of_none (.inl rfl)]
  | true =>
    rw [conclude_of_report rfl hreport, conclude_of_report rfl hreport]
    have hwrite := h (Utf8.encode report.render)
    cases ht : t.files.write t.engine.directory (reportTarget input.path).display
        (Utf8.encode report.render) with
    | ok files =>
      rw [ht] at hwrite
      obtain ⟨files', hs, -⟩ := Sequencing.map_eq_ok.1 hwrite.symm
      rw [save_of_ok (r := .ofOutcome input o duration) ht,
        save_of_ok (r := .ofOutcome input o duration) hs]
    | error e =>
      rw [ht] at hwrite
      cases hs : s.files.write s.engine.directory (reportTarget input.path).display
          (Utf8.encode report.render) with
      | ok files =>
        rw [hs] at hwrite
        cases hwrite
      | error e' =>
        rw [hs] at hwrite
        cases hwrite
        obtain ⟨_, hsave⟩ := save_of_error (r := .ofOutcome input o duration) ht
        obtain ⟨_, hsave'⟩ := save_of_error (r := .ofOutcome input o duration) hs
        rw [hsave, hsave']

theorem directory_validate (e : Engine D) (source : DocumentSource) :
    (e.validate source).2.directory = e.directory := by
  unfold Engine.validate Engine.needAll
  rcases hg : e.needGrammar with ⟨g, e₁⟩
  obtain ⟨slot, rfl⟩ := Engine.needGrammar_frame hg
  cases g with
  | error err => rfl
  | ok g =>
    rcases hv : ({ e with grammar := slot }).needValidator with ⟨v, e₂⟩
    obtain ⟨slot', rfl⟩ := Engine.needValidator_frame hv
    simp only [hv]
    cases v <;> rfl

theorem resultOf_eq (s : State D) (plan : Plan D) (input : InputFile) (duration : Duration) :
    s.resultOf plan input duration =
      (s.conclude plan.options.saveReports input duration (s.outcomeOf plan input)).1 := by
  have hdirectory := directory_validate (s.reading plan.read).engine (.file input.path.display)
  unfold State.resultOf State.outcomeOf State.validate
  rcases hvalidate : (s.reading plan.read).engine.validate (.file input.path.display)
    with ⟨outcome, engine⟩
  rw [hvalidate] at hdirectory
  have hsame : engine.directory = s.engine.directory := hdirectory
  apply conclude_fst_congr
  intro data
  simp only [hsame]
  rfl

/-- The result is the one that the document has alone. -/
theorem After.conclude_fst (h : After s plan inputs t) (hapart : Apart s inputs)
    (hinput : input ∈ inputs) (duration : Duration) {o : Outcome}
    (ho : s.outcomeOf plan input = .ok o) :
    (t.conclude plan.options.saveReports input duration (.ok o)).1 =
      s.resultOf plan input duration := by
  rw [resultOf_eq, ho]
  exact conclude_fst_congr _ _ (h.write hapart hinput)

/-- What saving a report changes: nothing, or the one place that it is saved at. -/
theorem After.conclude_snd (h : After s plan inputs t) (hapart : Apart s inputs)
    (hinput : input ∈ inputs) (duration : Duration) {o : Outcome}
    (ho : s.outcomeOf plan input = .ok o) :
    let u := (t.conclude plan.options.saveReports input duration (.ok o)).2
    u.engine = t.engine ∧ u.streams.out = t.streams.out ∧
      (u.files = t.files ∧ (∀ place data, ¬ Saves s plan input place data) ∨
        ∃ place data, Saves s plan input place data ∧
          u.files = t.files.put place (.file data)) := by
  cases hasked : plan.options.saveReports with
  | false =>
    rw [conclude_of_none (.inl rfl)]
    refine ⟨rfl, rfl, .inl ⟨rfl, fun place data hsave => ?_⟩⟩
    rw [hsave.asked] at hasked
    cases hasked
  | true =>
  cases hreport : o.report with
  | none =>
    rw [conclude_of_none (.inr hreport)]
    refine ⟨rfl, rfl, .inl ⟨rfl, fun place data hsave => ?_⟩⟩
    obtain ⟨o', report, ho', hreport', -⟩ := hsave.completed
    rw [ho, Except.ok.injEq] at ho'
    rw [← ho', hreport] at hreport'
    cases hreport'
  | some report =>
  rw [conclude_of_report rfl hreport]
  have hwrite := h.write hapart hinput (Utf8.encode report.render)
  cases hplace : s.reportPlace input with
  | error e =>
    have hlocate := (h.reportPlace hapart hinput).trans hplace
    obtain ⟨err, hsave⟩ := save_of_error (r := .ofOutcome input o duration)
      (FileSystem.write_of_error hlocate)
    rw [hsave]
    refine ⟨rfl, by simp [State.print], .inl ⟨rfl, fun place data hsave => ?_⟩⟩
    have hlocated := hsave.located
    rw [hplace] at hlocated
    cases hlocated
  | ok place =>
    have hlocate := (h.reportPlace hapart hinput).trans hplace
    have hput : t.files.write _ _ (Utf8.encode report.render) = _ :=
      FileSystem.write_of_locate hlocate
    simp only [(h.grows hapart).find?_directory] at hput
    by_cases hdirectory : s.files.find? place = some .directory
    · rw [if_pos hdirectory] at hput
      obtain ⟨err, hsave⟩ := save_of_error (r := .ofOutcome input o duration) hput
      rw [hsave]
      refine ⟨rfl, by simp [State.print], .inl ⟨rfl, fun place' data hsave => ?_⟩⟩
      have hlocated := hsave.located
      rw [hplace, Except.ok.injEq] at hlocated
      exact hsave.free (hlocated ▸ hdirectory)
    · rw [if_neg hdirectory] at hput
      rw [save_of_ok (r := .ofOutcome input o duration) hput]
      exact ⟨rfl, rfl, .inr ⟨place, _, ⟨hasked, ⟨o, report, ho, hreport, rfl⟩, hplace, hdirectory⟩,
        rfl⟩⟩

theorem After.print (h : After s plan inputs t) (text : Streams) :
    After s plan inputs (t.print text) := ⟨h.engine, h.files⟩

end
end Batch
end Schematron
