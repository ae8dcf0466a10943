import Mathlib.Data.List.Flatten
import Schematron.Proofs.Compilation.Phases
import Schematron.Proofs.Execution.FailedAssertions
import Schematron.Proofs.Report.Restriction

/-!
# Running for a phase

A phase without variables of its own is a filter of the phase of all patterns: if a schema compiles
for all phases and runs, then it compiles for the phase and runs, and its report is the report for
all phases without the entries of the patterns that the phase does not list
(`Run.report_of_phase`). The patterns that are left out could not have made a difference, since each
pattern starts from the environment of the schema.
-/
namespace Schematron.Validator.Run
open XPath Report Sequencing Compilation

variable {D : Type}

def ofPhase (r : Run D) (id : String) (listed : String → Bool) : Run D :=
  { r with validator := validatorOfPhase r.validator id listed }

/-- Neither the environment of the schema nor what a pattern does in it depends on the phase. -/
theorem activations_ofPhase (r : Run D) (id : String) (listed : String → Bool) :
    (r.ofPhase id listed).activations = r.start >>= fun env =>
      (r.validator.patterns.filter (·.id.any listed)).mapM (r.activate env) := rfl

/-- A phase activates those patterns that it lists, each as it is activated without the phase. -/
theorem activations_eq_filter {r : Run D} {as : List Activation} (h : r.activations = .ok as)
    (id : String) (listed : String → Bool) :
    (r.ofPhase id listed).activations = .ok (as.filter (·.pattern.id.any listed)) := by
  obtain ⟨env, hs, h⟩ := bind_eq_ok.1 h
  rw [activations_ofPhase, hs, ok_bind]
  apply mapM_filter h
  intro p a ha
  rw [(activate_eq_ok ha).1]

theorem isActivePattern_firing (f : Firing) :
    ∀ x ∈ f.entries.map Entry.element, isActivePattern x = false := by
  intro x hx
  obtain ⟨entry, hentry, rfl⟩ := List.mem_map.1 hx
  rw [isActivePattern_element]
  rcases List.mem_cons.1 hentry with rfl | hentry
  · simp [Entry.elementName]
  · obtain ⟨g, _, rfl⟩ := List.mem_map.1 hentry
    cases hk : g.kind <;> simp [Entry.elementName, FindingKind.elementName, hk]

theorem keepPatterns_activations (systemId : String) (listed : String → Bool)
    (as : List Activation) :
    keepPatterns listed true ((as.flatMap (Activation.entries systemId)).map Entry.element) =
      ((as.filter (·.pattern.id.any listed)).flatMap (Activation.entries systemId)).map
        Entry.element := by
  simp only [List.map_flatMap]
  apply keepPatterns_groups
  intro a _
  refine ⟨_, _, List.map_cons .., ?_, ?_, ?_⟩
  · simp [isActivePattern_element, Entry.elementName]
  · rw [id_activePattern]
  · intro x hx
    rw [List.map_flatMap] at hx
    obtain ⟨f, _, hx⟩ := List.mem_flatMap.1 hx
    exact isActivePattern_firing f x hx

/-- The report for a phase is the report for all phases with the entries of other patterns taken
out. -/
theorem reportOf_ofPhase (r : Run D) (id : String) (listed : String → Bool)
    (as : List Activation) :
    (r.ofPhase id listed).reportOf (as.filter (·.pattern.id.any listed)) =
      (r.reportOf as).restrictedTo id listed :=
  (restrictedTo_ofEntries r.header id (keepPatterns_activations r.systemId listed as)).symm

/-- If a schema compiles for all phases and its run on a document succeeds, then it compiles for a
phase without variables of its own and its run succeeds. The report is that for all phases with the
name of the phase changed and the entries of the patterns that the phase does not list taken out, and
its messages are some of the messages for all phases, in the same order. -/
theorem report_of_phase {C : Type} {c : Processor C} {tree phase : Xml.Element} {id : String}
    {r : Run D} {rep : Report} (hid : id ≠ "") (hall : id ≠ "#ALL") (hdefault : id ≠ "#DEFAULT")
    (hphase : (tree.childrenNamed schematronUri "phase").find? (·.attr "id" == some id) =
      some phase)
    (hlets : phase.childrenNamed schematronUri "let" = [])
    (hc : Validator.ofSchema c (some "#ALL") tree = .ok r.validator)
    (hr : r.report = .ok rep) :
    ∃ v, Validator.ofSchema c (some id) tree = .ok v ∧
      ({ r with validator := v } : Run D).report = .ok (rep.restrictedTo id (lists phase)) ∧
      (Message.ofReport (rep.restrictedTo id (lists phase))).Sublist (Message.ofReport rep) := by
  obtain ⟨as, has, rfl⟩ := report_eq_ok.1 hr
  have hcompiled := schema_ofPhase hid hall hdefault hphase hlets (mapError_eq_ok.1 hc)
  have hactivations := activations_eq_filter has id (lists phase)
  refine ⟨validatorOfPhase r.validator id (lists phase), mapError_eq_ok.2 hcompiled, ?_, ?_⟩
  · exact report_eq_ok.2 ⟨_, hactivations, (reportOf_ofPhase r id _ as).symm⟩
  · rw [← reportOf_ofPhase, ofReport_reportOf, ofReport_reportOf]
    exact List.filter_sublist.flatMap _

/-- A phase that lists one of two patterns, and an id that no pattern has. -/
def itemsPhase : Xml.Element where
  tag := ⟨.inNamespace schematronUri "sch" "phase", [], [⟨.plain "id", "items"⟩]⟩
  children := [
    schemaNode "active" [("pattern", "all")] [], schemaNode "active" [("pattern", "none")] []]

/-- The pattern that the phase leaves out binds the variable that the other one uses. -/
def phasedSchema : Xml.Element where
  tag := ⟨.inNamespace schematronUri "sch" "schema", [], []⟩
  children := [
    itemsPhase.toNode,
    schemaNode "pattern" [("id", "special")] [
      schemaNode "let" [("name", "limit"), ("value", "//item")] [],
      schemaNode "rule" [("context", "item[@special]"), ("role", "warning")] [
        schemaNode "assert" [("test", "note"), ("subject", "@sku"), ("diagnostics", "why")]
          [.text "A note is missing"]]],
    schemaNode "pattern" [("id", "all")] [
      schemaNode "let" [("name", "limit"), ("value", "10")] [],
      schemaNode "rule" [("context", "item")] [
        schemaNode "assert" [("test", "@quantity <= $limit")] [.text "Too many"]]],
    schemaNode "diagnostics" [] [schemaNode "diagnostic" [("id", "why")] [.text "Special  items"]]]

def phasedValidator : Validator :=
  { orderValidator with
    patterns := [
      { id := some "special", name := none, lets := [⟨"limit", ⟨"//item"⟩⟩], rules := [specialRule]
        selection := some ⟨"//item[@special]"⟩ },
      { id := some "all", name := none, lets := [⟨"limit", ⟨"10"⟩⟩], rules := [itemRule]
        selection := some ⟨"//item"⟩ }] }

def phasedRun : Run Unit := { orderRun with validator := phasedValidator }

def phasedReport : Report := ofEntries phasedRun.header [
  .activePattern (some "special") none "order.xml",
  .firedRule "item[@special]" none (some "warning") none,
  .finding {
    kind := .failedAssert, test := "note", location := "/order/item[1]/@sku"
    id := none, role := none, flag := none, diagnostics := [("why", "Special items")]
    text := "A note is missing" },
  .activePattern (some "all") none "order.xml",
  .firedRule "item" none none none,
  .finding {
    kind := .failedAssert, test := "@quantity <= $limit", location := "/order/item[1]"
    id := none, role := none, flag := none, diagnostics := [], text := "Too many" },
  .firedRule "item" none none none,
  .finding {
    kind := .failedAssert, test := "@quantity <= $limit", location := "/order/item[2]"
    id := none, role := none, flag := none, diagnostics := [], text := "Too many" }]

def itemsReport : Report := ofEntries { phasedRun.header with phase := "items" } [
  .activePattern (some "all") none "order.xml",
  .firedRule "item" none none none,
  .finding {
    kind := .failedAssert, test := "@quantity <= $limit", location := "/order/item[1]"
    id := none, role := none, flag := none, diagnostics := [], text := "Too many" },
  .firedRule "item" none none none,
  .finding {
    kind := .failedAssert, test := "@quantity <= $limit", location := "/order/item[2]"
    id := none, role := none, flag := none, diagnostics := [], text := "Too many" }]

theorem ofSchema_phasedSchema : Validator.ofSchema orderProcessor (some "#ALL") phasedSchema =
    .ok phasedRun.validator := by rfl

theorem report_phasedRun : phasedRun.report = .ok phasedReport := by rfl

theorem find?_itemsPhase :
    (phasedSchema.childrenNamed schematronUri "phase").find? (·.attr "id" == some "items") =
      some itemsPhase := by rfl

theorem restrictedTo_itemsPhase :
    phasedReport.restrictedTo "items" (lists itemsPhase) = itemsReport := by rfl

/-- The warning about the special item is not in the report for the phase. -/
theorem report_of_phase_orders : "items" ≠ "" ∧ "items" ≠ "#ALL" ∧ "items" ≠ "#DEFAULT" ∧
    (phasedSchema.childrenNamed schematronUri "phase").find? (·.attr "id" == some "items") =
      some itemsPhase ∧
    itemsPhase.childrenNamed schematronUri "let" = [] ∧
    Validator.ofSchema orderProcessor (some "#ALL") phasedSchema = .ok phasedRun.validator ∧
    phasedRun.report = .ok phasedReport ∧
    ∃ v, Validator.ofSchema orderProcessor (some "items") phasedSchema = .ok v ∧
      ({ phasedRun with validator := v } : Run Unit).report = .ok itemsReport ∧
      (Message.ofReport itemsReport).Sublist (Message.ofReport phasedReport) := by
  have hid : "items" ≠ "" := by decide
  have hall : "items" ≠ "#ALL" := by decide
  have hdefault : "items" ≠ "#DEFAULT" := by decide
  have hlets : itemsPhase.childrenNamed schematronUri "let" = [] := rfl
  obtain ⟨v, hv, hreport, hmessages⟩ := report_of_phase hid hall hdefault find?_itemsPhase hlets
    ofSchema_phasedSchema report_phasedRun
  rw [restrictedTo_itemsPhase] at hreport hmessages
  exact ⟨hid, hall, hdefault, find?_itemsPhase, hlets, ofSchema_phasedSchema, report_phasedRun, v,
    hv, hreport, hmessages⟩

end Schematron.Validator.Run
