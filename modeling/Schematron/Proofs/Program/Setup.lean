import Schematron.Program.Run
import Schematron.Proofs.Engine.Documents
import Schematron.Proofs.Execution.Firing
import Schematron.Proofs.Files.Places
import Schematron.Proofs.Sequencing

/-!
# What comes before the first document

A run takes five steps before it looks at a document: it loads the configuration, sets up a client
for downloads, loads the schema, finds the documents, and makes and prepares the engine. `Starts`
says that all of them succeed, and `Stops` which one is the first to fail, with its exit status.
`run_outcome` says that one of the two holds, that a run which starts ends with 0 or 1 whatever its
documents are like, and that a run which stops leaves no trace of its documents: the files are as
before, nothing is written, and how the processor parses documents makes no difference.
-/
namespace Schematron
variable {D : Type}

namespace Batch

theorem path_conclude (s : State D) (saveReports : Bool) (input : InputFile) (duration : Duration)
    (outcome : Except EngineError Outcome) :
    (s.conclude saveReports input duration outcome).1.path = input.path := by
  unfold State.conclude
  cases outcome with
  | error e => rfl
  | ok o =>
    cases hreport : o.report with
    | none => simp [hreport, FileResult.ofOutcome]
    | some report =>
      cases saveReports with
      | false => simp [hreport, FileResult.ofOutcome]
      | true =>
        simp only [hreport, if_true, State.save]
        split <;> rfl

theorem paths_runFrom (options : Options) (timings : Timings)
    (handOn : Nat → FileResult → Streams) (n : Nat) (inputs : List InputFile) (s : State D) :
    (runFrom options timings handOn n inputs s).1.map (·.path) = inputs.map (·.path) := by
  induction inputs generalizing n s with
  | nil => rfl
  | cons input inputs ih =>
    have hpath : (s.validate options.saveReports input (timings.document n)).1.path = input.path :=
      path_conclude ..
    simp only [runFrom, List.map_cons, ih, hpath]

/-- The results are those of the documents, in order. -/
theorem paths_run (options : Options) (timings : Timings) (handOn : Nat → FileResult → Streams)
    (inputs : List InputFile) (s : State D) :
    (run options timings handOn inputs s).1.files.map (·.path) = inputs.map (·.path) :=
  paths_runFrom options timings handOn 0 inputs s

end Batch

namespace Program
open Sequencing

theorem compile_readingWith (p : Processor D) (parseFile : String → Parsed D)
    (resolver : Inclusion.Resolver) (directory : String) (schema : SchemaSource)
    (phase : Option String) :
    compile (p.readingWith parseFile) resolver directory schema phase =
      (·.readingWith parseFile) <$> compile p resolver directory schema phase := by
  unfold compile
  rw [Engine.build_readingWith]
  cases Engine.build p resolver directory schema phase with
  | error err => rfl
  | ok e =>
    simp only [map_ok, ok_bind, Engine.prepare_readingWith]
    rcases e.prepare with ⟨r, e'⟩
    cases r <;> rfl

/-- A run that finds another content in every document. -/
def Setting.readingWith (s : Setting D) (parseFile : String → Parsed D) : Setting D :=
  { s with processor := s.processor.readingWith parseFile }

theorem prepare_readingWith (s : Setting D) (parseFile : String → Parsed D) (a : Arguments) :
    prepare (s.readingWith parseFile) a =
      (fun j => { j with engine := j.engine.readingWith parseFile }) <$> prepare s a := by
  have hdocuments (c : Configuration) :
      documents (s.readingWith parseFile) c a = documents s c a := rfl
  unfold prepare
  simp only [hdocuments]
  simp only [Setting.readingWith, compile_readingWith]
  cases Configuration.load s.world.files s.world.directory s.environment a with
  | error e => rfl
  | ok c =>
    simp only [Except.mapError, ok_bind]
    cases s.client c.downloads with
    | error e => rfl
    | ok u =>
      rcases (loaderOf c).load s.world a.schema with ⟨schema, loader⟩
      cases schema with
      | error e => rfl
      | ok schema =>
        cases documents s c a with
        | error f => rfl
        | ok inputs =>
          simp only [ok_bind]
          cases compile s.processor (loader.resolver s.world) s.world.directory schema
            c.validation.phase <;> rfl

section
variable (s : Setting D) (a : Arguments)

/-- The configuration is loaded, and a client for its downloads set up. -/
structure Configured (c : Configuration) : Prop where
  loaded : Configuration.load s.world.files s.world.directory s.environment a = .ok c
  connected : s.client c.downloads = .ok ()

/-- The schema is loaded as well, which leaves a loader. -/
structure Supplied (c : Configuration) (schema : SchemaSource) (loader : Loader) : Prop
    extends Configured s a c where
  supplied : (loaderOf c).load s.world a.schema = (.ok schema, loader)

def buildWith (c : Configuration) (schema : SchemaSource) (loader : Loader) :
    Except EngineError (Engine D) :=
  Engine.build s.processor (loader.resolver s.world) s.world.directory schema c.validation.phase

/-- All steps before the first document succeed, and lead to a batch. -/
inductive Starts : Job D → Prop where
  | mk {c schema loader inputs e} (supplied : Supplied s a c schema loader)
    (found : documents s c a = .ok inputs) (built : buildWith s c schema loader = .ok e)
    (prepared : e.prepare.1 = .ok ()) : Starts ⟨c, inputs, e.prepare.2⟩

/-- A step is the first to fail, and the run ends with an exit status. -/
inductive Stops : Failure → Nat → Prop where
  | configuration {e} (failed : Configuration.load s.world.files s.world.directory s.environment a =
      .error e) : Stops (.configuration e) 2
  | client {c e} (loaded : Configuration.load s.world.files s.world.directory s.environment a =
      .ok c) (failed : s.client c.downloads = .error e) : Stops (.client e) 2
  | schema {c e loader} (configured : Configured s a c)
    (failed : (loaderOf c).load s.world a.schema = (.error e, loader)) :
    Stops (.schema a.schema e) 3
  | search {c schema loader path e} (supplied : Supplied s a c schema loader)
    (named : a.input = some path)
    (failed : (searchOf c).run s.world.files s.world.directory path = .error e) :
    Stops (.search e) 2
  | list {c schema loader e} (supplied : Supplied s a c schema loader) (unnamed : a.input = none)
    (failed : InputList.read s.input = .error e) : Stops (.list e) 16
  | detection {c schema loader inputs e} (supplied : Supplied s a c schema loader)
    (found : documents s c a = .ok inputs) (failed : buildWith s c schema loader = .error e) :
    Stops (.compilation a.schema e) 2
  | compilation {c schema loader inputs engine e} (supplied : Supplied s a c schema loader)
    (found : documents s c a = .ok inputs) (built : buildWith s c schema loader = .ok engine)
    (failed : engine.prepare.1 = .error e) : Stops (.compilation a.schema e) 2

end

variable {s : Setting D} {a : Arguments}

/-- The exit status of a failure is that of the step which failed. -/
theorem Stops.exitCode {f : Failure} {code : Nat} (h : Stops s a f code) : f.exitCode = code := by
  cases h <;> rfl

theorem compile_eq (c : Configuration) (schema : SchemaSource) (loader : Loader) :
    compile s.processor (loader.resolver s.world) s.world.directory schema c.validation.phase =
      (do
        let e ← buildWith s c schema loader
        e.prepare.1
        return e.prepare.2) := rfl

theorem exists_of_documents_eq_error {c : Configuration} {f : Failure}
    (h : documents s c a = .error f) :
    (∃ path e, a.input = some path ∧
      (searchOf c).run s.world.files s.world.directory path = .error e) ∨
    ∃ e, a.input = none ∧ InputList.read s.input = .error e := by
  unfold documents at h
  cases hinput : a.input with
  | some path =>
    cases hrun : (searchOf c).run s.world.files s.world.directory path with
    | ok inputs =>
      simp only [hinput, hrun] at h
      cases h
    | error e => exact .inl ⟨path, e, rfl, hrun⟩
  | none =>
    cases hread : InputList.read s.input with
    | ok paths =>
      simp only [hinput, hread] at h
      cases h
    | error e => exact .inr ⟨e, rfl, rfl⟩

/-- A run either starts or stops at some step. -/
theorem starts_or_stops (s : Setting D) (a : Arguments) :
    (∃ j, Starts s a j) ∨ ∃ f code, Stops s a f code := by
  cases hload : Configuration.load s.world.files s.world.directory s.environment a with
  | error e => exact .inr ⟨_, _, .configuration hload⟩
  | ok c =>
  cases hclient : s.client c.downloads with
  | error e => exact .inr ⟨_, _, .client hload hclient⟩
  | ok u =>
  have hconfigured : Configured s a c := ⟨hload, hclient⟩
  rcases hschema : (loaderOf c).load s.world a.schema with ⟨_ | schema, loader⟩
  · exact .inr ⟨_, _, .schema hconfigured hschema⟩
  have hsupplied : Supplied s a c schema loader := ⟨hconfigured, hschema⟩
  cases hfound : documents s c a with
  | error f =>
    obtain ⟨path, e, hinput, hrun⟩ | ⟨e, hinput, hread⟩ := exists_of_documents_eq_error hfound
    · exact .inr ⟨_, _, .search hsupplied hinput hrun⟩
    · exact .inr ⟨_, _, .list hsupplied hinput hread⟩
  | ok inputs =>
  cases hbuilt : buildWith s c schema loader with
  | error e => exact .inr ⟨_, _, .detection hsupplied hfound hbuilt⟩
  | ok e =>
  cases hprepared : e.prepare.1 with
  | error err => exact .inr ⟨_, _, .compilation hsupplied hfound hbuilt hprepared⟩
  | ok v => exact .inl ⟨_, .mk hsupplied hfound hbuilt hprepared⟩

theorem Starts.prepare {j : Job D} (h : Starts s a j) : Program.prepare s a = .ok j := by
  obtain ⟨hsupplied, hfound, hbuilt, hprepared⟩ := h
  simp only [Program.prepare, compile_eq, hsupplied.loaded, hsupplied.connected, hsupplied.supplied,
    hfound, hbuilt, hprepared, Except.mapError, ok_bind, pure_eq_ok]

theorem Stops.prepare {f : Failure} {code : Nat} (h : Stops s a f code) :
    Program.prepare s a = .error f := by
  unfold Program.prepare
  simp only [compile_eq]
  cases h with
  | configuration failed =>
    rw [failed]
    rfl
  | client loaded failed =>
    rw [loaded]
    simp only [failed, Except.mapError, ok_bind, error_bind]
  | schema configured failed =>
    rw [configured.loaded]
    simp only [configured.connected, failed, Except.mapError, ok_bind, error_bind]
  | search supplied named failed =>
    rw [supplied.loaded]
    simp only [supplied.connected, supplied.supplied, documents, named, failed, Except.mapError,
      ok_bind, error_bind]
  | list supplied unnamed failed =>
    rw [supplied.loaded]
    simp only [supplied.connected, supplied.supplied, documents, unnamed, failed, Except.mapError,
      ok_bind, error_bind]
  | detection supplied found failed =>
    rw [supplied.loaded]
    simp only [supplied.connected, supplied.supplied, found, failed, Except.mapError, ok_bind,
      error_bind]
  | compilation supplied found built failed =>
    rw [supplied.loaded]
    simp only [supplied.connected, supplied.supplied, found, built, failed, Except.mapError,
      ok_bind, error_bind]

theorem Starts.run {j : Job D} (h : Starts s a j) : Program.run s a = j.run s := by
  rw [Program.run, h.prepare]

/-- A run that stops ends with the failure, with the files as they were and without a word. -/
theorem Stops.run {f : Failure} {code : Nat} (h : Stops s a f code) :
    Program.run s a = { status := .error f, files := s.world.files } := by
  rw [Program.run, h.prepare]

/-- A run that stops does so whatever the documents hold. -/
theorem Stops.run_readingWith {f : Failure} {code : Nat} (h : Stops s a f code)
    (parseFile : String → Parsed D) :
    Program.run (s.readingWith parseFile) a = Program.run s a := by
  rw [h.run, Program.run, prepare_readingWith, h.prepare]
  rfl

theorem status_run (j : Job D) (s : Setting D) :
    (j.run s).status = .ok (j.batch s).1.exitCode := rfl

/-- A run ends with 0 or 1 exactly if every step before the first document succeeds; it is 0 exactly
if each document is valid, and each has one result, in order. Otherwise it ends with the failure of
the first step that fails and with the status of that step; then the files are as before, nothing is
written, and nothing depends on how the processor parses documents. -/
theorem run_outcome (s : Setting D) (a : Arguments) :
    ((run s a).status = .ok 0 ∨ (run s a).status = .ok 1 ↔ ∃ j, Starts s a j) ∧
    (∀ j, Starts s a j →
      (j.batch s).1.files.map (·.path) = j.inputs.map (·.path) ∧
      ((run s a).status = .ok 0 ↔ ∀ r ∈ (j.batch s).1.files, r.verdict = .valid)) ∧
    ((¬ ∃ j, Starts s a j) → ∃ f code, Stops s a f code) ∧
    ∀ f code, Stops s a f code → f.exitCode = code ∧
      run s a = { status := .error f, files := s.world.files, streams := {} } ∧
      ∀ parseFile, run (s.readingWith parseFile) a = run s a := by
  refine ⟨⟨?_, ?_⟩, ?_, ?_, ?_⟩
  · intro hstatus
    obtain hstarts | ⟨f, code, hstops⟩ := starts_or_stops s a
    · exact hstarts
    · rw [hstops.run] at hstatus
      rcases hstatus with h | h <;> cases h
  · rintro ⟨j, hstarts⟩
    rw [hstarts.run, status_run]
    rcases (j.batch s).1.exitCode_eq_zero_or_one with h | h <;> simp [h]
  · intro j hstarts
    rw [hstarts.run, status_run, Except.ok.injEq, BatchResults.exitCode_eq_zero_iff]
    exact ⟨Batch.paths_run .., Iff.rfl⟩
  · intro hno
    exact (starts_or_stops s a).resolve_left hno
  · intro f code hstops
    exact ⟨hstops.exitCode, hstops.run, hstops.run_readingWith⟩

def bareSchema : SchemaSource :=
  ⟨"/s.sch", Utf8.encode "<s:schema xmlns:s='http://purl.oclc.org/dsdl/schematron'/>"⟩

def bareWorld : World where
  files := ⟨[(["s.sch"], .file bareSchema.data)]⟩
  directory := "/"
  network := .unreachable
  now := ⟨0, 0⟩

def bareSetting (list : Bytes) : Setting Unit where
  processor :=
    { Validator.Run.orderProcessor with
      evaluate := fun _ _ source _ => .ok (.boolean (source == "boolean(/sch:schema)")) }
  world := bareWorld
  input := list

def bareArguments : Arguments := { schema := "s.sch" }

def bareConfiguration : Configuration :=
  ((Configuration.standard (Environment.cacheDirectory [])).withOverrides {}).withArguments
    bareArguments

theorem entry_bare {name : String} (hname : FileSystem.isRootName name = true)
    (hlink : (bareWorld.files.find? [name]).any FileEntry.isLink = false) :
    bareWorld.files.entry "/" name =
      (bareWorld.files.find? [name]).elim (.error .notFound) .ok :=
  FileSystem.entry_of_locate (FileSystem.locate_rootName hname hlink)

theorem load_bare :
    Configuration.load bareWorld.files "/" [] bareArguments = .ok bareConfiguration := by
  have hnone : ∀ name ∈ Configuration.candidates [],
      ¬ bareWorld.files.pathExists "/" name = true := by
    intro name hname
    have hnames : ∀ name ∈ Configuration.candidates [], FileSystem.isRootName name = true ∧
        bareWorld.files.find? [name] = none := by decide +kernel
    obtain ⟨hroot, hentry⟩ := hnames name hname
    rw [FileSystem.pathExists, entry_bare hroot (by rw [hentry]; rfl), hentry]
    decide
  have hfile : Configuration.filePath? bareWorld.files "/" [] bareArguments = none :=
    List.find?_eq_none.2 hnone
  unfold Configuration.load
  rw [hfile]
  decide +kernel

theorem supplied_bare (list : Bytes) : Supplied (bareSetting list) bareArguments bareConfiguration
    bareSchema (loaderOf bareConfiguration) := by
  refine ⟨⟨load_bare, rfl⟩, ?_⟩
  have hlocation : Location.parse bareArguments.schema = .ok (.path "s.sch") := by decide +kernel
  have hread : bareWorld.files.read "/" "s.sch" = .ok bareSchema.data := by
    rw [FileSystem.read, entry_bare (by decide +kernel) (by decide +kernel)]
    rfl
  have hdirectory : bareWorld.directory = "/" := rfl
  rw [Loader.load, hlocation]
  simp only [SchemaSource.ofFile, bareSetting, hdirectory, hread]
  rfl

def bareEngine : Engine Unit where
  processor := (bareSetting []).processor
  resolver := (loaderOf bareConfiguration).resolver bareWorld
  directory := "/"
  schema := bareSchema
  phase := none
  kind := .assertions

theorem starts_bare {list : Bytes} {paths : List String} (hlist : InputList.read list = .ok paths) :
    Starts (bareSetting list) bareArguments
      ⟨bareConfiguration, paths.map (bareWorld.files.inputFile "/"), bareEngine.prepare.2⟩ := by
  have hfound : documents (bareSetting list) bareConfiguration bareArguments =
      .ok (paths.map (bareWorld.files.inputFile "/")) := by
    simp only [documents, bareArguments, bareSetting, hlist]
    rfl
  have hbuilt : buildWith (bareSetting list) bareConfiguration bareSchema
      (loaderOf bareConfiguration) = .ok bareEngine := by rfl
  have hprepared : bareEngine.prepare.1.toOption.isSome = true := by decide +kernel
  obtain ⟨_, hok⟩ := exists_of_isSome hprepared
  exact .mk (supplied_bare list) hfound hbuilt hok

/-- With a list of one document the run starts, and with a list that is no text it stops. -/
theorem run_outcome_bare :
    (∃ j, Starts (bareSetting (Utf8.encode "a.xml")) bareArguments j ∧
      ((run (bareSetting (Utf8.encode "a.xml")) bareArguments).status = .ok 0 ∨
        (run (bareSetting (Utf8.encode "a.xml")) bareArguments).status = .ok 1) ∧
      (j.batch (bareSetting (Utf8.encode "a.xml"))).1.files.map (·.path) = [.ofText "a.xml"]) ∧
    Stops (bareSetting [255]) bareArguments (.list .notText) 16 ∧
    run (bareSetting [255]) bareArguments =
      { status := .error (.list .notText), files := bareWorld.files } := by
  have hlist : InputList.read (Utf8.encode "a.xml") = .ok ["a.xml"] := by decide +kernel
  have hstarts := starts_bare hlist
  have hstops : Stops (bareSetting [255]) bareArguments (.list .notText) 16 :=
    .list (supplied_bare [255]) rfl (by decide +kernel)
  obtain ⟨hstatus, hresults, -, -⟩ :=
    run_outcome (bareSetting (Utf8.encode "a.xml")) bareArguments
  obtain ⟨-, -, -, hfailures⟩ := run_outcome (bareSetting [255]) bareArguments
  exact ⟨⟨_, hstarts, hstatus.2 ⟨_, hstarts⟩, (hresults _ hstarts).1⟩, hstops,
    (hfailures _ _ hstops).2.1⟩

end Program

end Schematron
