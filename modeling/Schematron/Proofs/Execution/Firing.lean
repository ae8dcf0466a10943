import Schematron.Proofs.Compilation.Validators
import Schematron.Proofs.Execution.Scoping

/-!
# Which rules fire

A pattern goes once through the nodes of its union and fires at each node the first of its rules
whose own selection holds the node. Where the union selects what the rules select, every such node
fires exactly one rule (`Run.fires_first_rule`). The environment of a pattern does not depend on the
other patterns, and so does not what fires in it.
-/
namespace Schematron.Validator.Run
open XPath Report Sequencing

variable {D : Type}

def selects (r : Run D) (env : XPath.Environment) (node : NodePath) (rule : Rule) : Bool :=
  match r.select env rule.selection with
  | .ok nodes => nodes.contains node
  | .error _ => false

/-- The nodes that the union of a pattern selects; none without rules. -/
def unionNodes (r : Run D) (env : XPath.Environment) (p : Pattern) :
    Except EngineError (List NodePath) :=
  match p.selection with
  | some union => r.select env union
  | none => .ok []

/-- The environment inside the scope of a pattern, which the schema and the pattern bind. -/
def patternEnvironment (r : Run D) (p : Pattern) : Except EngineError XPath.Environment := do
  r.scope documentPath (← r.start) p.lets

/-- The union of a pattern selects, without repetition, exactly the nodes that the rules' own
selections hold. -/
def SelectsUnion (r : Run D) (p : Pattern) : Prop :=
  ∀ env union nodes, r.patternEnvironment p = .ok env → p.selection = some union →
    r.select env union = .ok nodes →
      nodes.Nodup ∧ ∀ node, node ∈ nodes ↔ ∃ rule ∈ p.rules, r.selects env node rule = true

/-- What fires in a pattern: at each node of the union, in order, the first rule that selects it,
and so exactly one rule at each node that some rule selects. -/
structure FiresFirst (r : Run D) (p : Pattern) (a : Activation) : Prop where
  union : p.selection =
    (Compilation.unionOf (p.rules.map (·.selection.source))).map Expression.mk
  pattern : a.pattern = p
  environment : r.patternEnvironment p = .ok a.env
  order : ∃ nodes, r.unionNodes a.env p = .ok nodes ∧
    a.firings.map (fun f => (f.node, some f.rule)) =
      nodes.map fun node => (node, p.rules.find? (r.selects a.env node))
  once : ∀ node, (a.firings.map (·.node)).count node =
    if p.rules.any (r.selects a.env node) then 1 else 0
  fired : ∀ f ∈ a.firings, r.fire a.env f.rule f.node = .ok f

theorem fire_eq_ok {r : Run D} {env : XPath.Environment} {rule : Rule} {node : NodePath}
    {f : Firing} (h : r.fire env rule node = .ok f) : f.node = node ∧ f.rule = rule ∧
      r.scope node env rule.lets = .ok f.env ∧ r.runTests f.env rule node = .ok f.findings := by
  obtain ⟨inner, hi, h⟩ := bind_eq_ok.1 h
  obtain ⟨found, hf, h⟩ := bind_eq_ok.1 h
  cases h
  exact ⟨rfl, rfl, hi, hf⟩

theorem fireAll_eq_ok {r : Run D} {env : XPath.Environment} {p : Pattern} {fs : List Firing}
    (h : r.fireAll env p = .ok fs) : (p.selection = none ∧ fs = []) ∨
      ∃ union claims nodes, p.selection = some union ∧ r.claims env p.rules = .ok claims ∧
        r.select env union = .ok nodes ∧
        List.Forall₂ (fun m f => r.fire env m.2 m.1 = .ok f) (matched claims nodes) fs := by
  unfold fireAll at h
  cases hs : p.selection with
  | none =>
    rw [hs] at h
    cases h
    exact .inl ⟨rfl, rfl⟩
  | some union =>
    rw [hs] at h
    obtain ⟨claims, hc, h⟩ := bind_eq_ok.1 h
    obtain ⟨nodes, hn, h⟩ := bind_eq_ok.1 h
    exact .inr ⟨union, claims, nodes, rfl, hc, hn, mapM_eq_ok.1 h⟩

theorem activate_eq_ok {r : Run D} {env : XPath.Environment} {p : Pattern} {a : Activation}
    (h : r.activate env p = .ok a) : a.pattern = p ∧ r.scope documentPath env p.lets = .ok a.env ∧
      r.fireAll a.env p = .ok a.firings := by
  obtain ⟨inner, hi, h⟩ := bind_eq_ok.1 h
  obtain ⟨firings, hf, h⟩ := bind_eq_ok.1 h
  cases h
  exact ⟨rfl, hi, hf⟩

theorem activations_eq_ok {r : Run D} {as : List Activation} (h : r.activations = .ok as) :
    List.Forall₂ (fun p a => a.pattern = p ∧ r.patternEnvironment p = .ok a.env ∧
      r.fireAll a.env p = .ok a.firings) r.validator.patterns as := by
  obtain ⟨env, hs, h⟩ := bind_eq_ok.1 h
  refine (mapM_eq_ok.1 h).imp fun p a ha => ?_
  obtain ⟨hp, hi, hf⟩ := activate_eq_ok ha
  refine ⟨hp, ?_, hf⟩
  rw [patternEnvironment, hs, ok_bind]
  exact hi

/-- The claimant of a node is the first rule that selects it. -/
theorem claimant?_eq {r : Run D} {env : XPath.Environment} {rules : List Rule}
    {claims : List (Rule × List NodePath)} (h : r.claims env rules = .ok claims)
    (node : NodePath) : claimant? claims node = rules.find? (r.selects env node) := by
  induction mapM_eq_ok.1 h with
  | nil => rfl
  | @cons rule claim rules claims hc hcs ih =>
    obtain ⟨nodes, hn, hc⟩ := bind_eq_ok.1 hc
    cases hc
    have hs : r.selects env node rule = nodes.contains node := by simp [selects, hn]
    have ih := ih (mapM_eq_ok.2 hcs)
    simp only [claimant?, List.find?_cons, hs] at ih ⊢
    cases nodes.contains node with
    | true => rfl
    | false => exact ih

/-- Where every node has a claimant, each node is matched with it, in order. -/
theorem matched_eq {claims : List (Rule × List NodePath)} {nodes : List NodePath}
    (h : ∀ node ∈ nodes, (claimant? claims node).isSome) :
    (matched claims nodes).map (fun m => (m.1, some m.2)) =
      nodes.map fun node => (node, claimant? claims node) := by
  induction nodes with
  | nil => rfl
  | cons node nodes ih =>
    obtain ⟨rule, hr⟩ := Option.isSome_iff_exists.1 (h node List.mem_cons_self)
    have ih := ih fun n hn => h n (List.mem_cons_of_mem node hn)
    simp only [matched, List.filterMap_cons, hr, Option.map_some, List.map_cons] at ih ⊢
    rw [ih]

theorem map_firings {r : Run D} {env : XPath.Environment} {ms : List (NodePath × Rule)}
    {fs : List Firing} (h : List.Forall₂ (fun m f => r.fire env m.2 m.1 = .ok f) ms fs) :
    fs.map (fun f => (f.node, f.rule)) = ms ∧ ∀ f ∈ fs, r.fire env f.rule f.node = .ok f := by
  induction h with
  | nil => exact ⟨rfl, nofun⟩
  | @cons m f ms fs hf _ ih =>
    obtain ⟨hn, hr, _⟩ := fire_eq_ok hf
    refine ⟨by simp [hn, hr, ih.1], fun f' hf' => ?_⟩
    rcases List.mem_cons.1 hf' with rfl | hf'
    · rw [hn, hr]
      exact hf
    · exact ih.2 f' hf'

theorem selection_of_mem {C : Type} {c : Processor C} {asked : Option String} {tree : Xml.Element}
    {v : Validator} (h : Validator.ofSchema c asked tree = .ok v) {p : Pattern}
    (hp : p ∈ v.patterns) : p.selection =
      (Compilation.unionOf (p.rules.map (·.selection.source))).map Expression.mk := by
  obtain ⟨e, he⟩ := (Compilation.schema_eq_ok (mapError_eq_ok.1 h)).1 p hp
  exact Compilation.selection_of_pattern he

theorem firesFirst_of_selection {r : Run D} {p : Pattern} {a : Activation}
    (hunion : p.selection =
      (Compilation.unionOf (p.rules.map (·.selection.source))).map Expression.mk)
    (hu : r.SelectsUnion p) (hp : a.pattern = p)
    (henv : r.patternEnvironment p = .ok a.env) (hf : r.fireAll a.env p = .ok a.firings) :
    r.FiresFirst p a := by
  rcases fireAll_eq_ok hf with ⟨hs, hfs⟩ | ⟨union, claims, nodes, hs, hc, hn, hm⟩
  · have hrules := (Compilation.selection_eq_none hunion).1 hs
    exact ⟨hunion, hp, henv, ⟨[], by simp [unionNodes, hs], by simp [hfs]⟩, by simp [hfs, hrules],
      by simp [hfs]⟩
  · obtain ⟨hnodup, hmem⟩ := hu a.env union nodes henv hs hn
    obtain ⟨hpairs, hfired⟩ := map_firings hm
    have hclaimed : ∀ node ∈ nodes, (claimant? claims node).isSome := by
      intro node hnode
      obtain ⟨rule, hrule, hsel⟩ := (hmem node).1 hnode
      rw [claimant?_eq hc, List.find?_isSome]
      exact ⟨rule, hrule, hsel⟩
    have horder : a.firings.map (fun f => (f.node, some f.rule)) =
        nodes.map fun node => (node, p.rules.find? (r.selects a.env node)) := by
      calc a.firings.map (fun f => (f.node, some f.rule))
          = (a.firings.map fun f => (f.node, f.rule)).map (fun m => (m.1, some m.2)) := by simp
        _ = nodes.map fun node => (node, claimant? claims node) := by
            rw [hpairs, matched_eq hclaimed]
        _ = nodes.map fun node => (node, p.rules.find? (r.selects a.env node)) := by
            simp only [claimant?_eq hc]
    have hnodes : a.firings.map (·.node) = nodes := by
      simpa [Function.comp_def] using congrArg (List.map Prod.fst) horder
    refine ⟨hunion, hp, henv, ⟨nodes, by simp [unionNodes, hs, hn], horder⟩, fun node => ?_, hfired⟩
    rw [hnodes, hnodup.count]
    simp only [hmem node, List.any_eq_true]

/-- In a run of a compiled validator that succeeds, every active pattern fires, at each node that
its rules select, exactly the first rule that selects it, in the order of its union; and the report
is the report of what fired. -/
theorem fires_first_rule {C : Type} {c : Processor C} {asked : Option String} {tree : Xml.Element}
    {r : Run D} {rep : Report} (hc : Validator.ofSchema c asked tree = .ok r.validator)
    (hu : ∀ p ∈ r.validator.patterns, r.SelectsUnion p) (hr : r.report = .ok rep) :
    ∃ as, rep = r.reportOf as ∧ List.Forall₂ r.FiresFirst r.validator.patterns as := by
  obtain ⟨as, has, rfl⟩ := report_eq_ok.1 hr
  refine ⟨as, rfl, ?_⟩
  have hsteps := List.forall₂_iff_zip.1 (activations_eq_ok has)
  refine List.forall₂_iff_zip.2 ⟨hsteps.1, fun {p a} hpa => ?_⟩
  obtain ⟨hp, henv, hf⟩ := hsteps.2 hpa
  have hmem := (List.of_mem_zip hpa).1
  exact firesFirst_of_selection (selection_of_mem hc hmem) (hu p hmem) hp henv hf

def schemaNode (name : String) (attributes : List (String × String)) (children : List Xml.Node) :
    Xml.Node :=
  .element ⟨.inNamespace schematronUri "sch" name, [], attributes.map fun a => ⟨.plain a.1, a.2⟩⟩
    children

/-- Two rules of which the first selects some of the nodes of the second. -/
def orderSchema : Xml.Element where
  tag := ⟨.inNamespace schematronUri "sch" "schema", [], []⟩
  children := [
    schemaNode "pattern" [] [
      schemaNode "let" [("name", "limit"), ("value", "10")] [],
      schemaNode "rule" [("context", "item[@special]"), ("role", "warning")] [
        schemaNode "assert" [("test", "note"), ("subject", "@sku"), ("diagnostics", "why")]
          [.text "A note is missing"]],
      schemaNode "rule" [("context", "item")] [
        schemaNode "assert" [("test", "@quantity <= $limit")] [.text "Too many"]]],
    schemaNode "diagnostics" [] [schemaNode "diagnostic" [("id", "why")] [.text "Special  items"]]]

def specialRule : Rule where
  id := none
  context := "item[@special]"
  selection := ⟨"//item[@special]"⟩
  role := some "warning"
  flag := none
  subject := none
  lets := []
  tests := [{
    kind := .assertion, id := none, role := none, flag := none, test := ⟨"note"⟩
    subject := some ⟨"@sku"⟩, diagnostics := ["why"], message := [.text "A note is missing"] }]

def itemRule : Rule where
  id := none
  context := "item"
  selection := ⟨"//item"⟩
  role := none
  flag := none
  subject := none
  lets := []
  tests := [{
    kind := .assertion, id := none, role := none, flag := none, test := ⟨"@quantity <= $limit"⟩
    subject := none, diagnostics := [], message := [.text "Too many"] }]

def orderValidator : Validator where
  title := none
  schemaVersion := none
  phase := "#ALL"
  namespaces := []
  lets := []
  patterns := [{
    id := none, name := none, lets := [⟨"limit", ⟨"10"⟩⟩], rules := [specialRule, itemRule]
    selection := some ⟨"//item[@special] | //item"⟩ }]
  diagnostics := [("why", [.text "Special  items"])]
  nameOfNode := ⟨"name()"⟩

/-- The values of expressions in an order of a special item without a note and an item with too
large a quantity. -/
def orderValue (env : XPath.Environment) (source : String) (node : NodePath) :
    Except (List String) Value :=
  match source with
  | "10" => .ok (.number "10")
  | "//item[@special]" => .ok (.nodes ["/order/item[1]"] "")
  | "//item" => .ok (.nodes ["/order/item[1]", "/order/item[2]"] "")
  | "//item[@special] | //item" => .ok (.nodes ["/order/item[1]", "/order/item[2]"] "")
  | "note" => .ok (.nodes [] "")
  | "@sku" => .ok (.nodes [node ++ "/@sku"] "b2")
  | "@quantity <= $limit" =>
    if (env.valueOf "limit").isSome then .ok (.boolean false) else .error ["Undefined variable"]
  | _ => .error ["Undefined variable"]

def orderProcessor : Processor Unit where
  parseBytes _ _ := ⟨[], some ()⟩
  parseFile _ := ⟨[], some ()⟩
  refusal _ := none
  hasContext _ := true
  acceptsNamespace _ _ := true
  acceptsVariable _ := true
  evaluate _ := orderValue
  rootPath _ := some "/order"
  line _ _ := 1
  compileGrammar _ := none
  checkGrammar _ _ := none

def orderRun : Run Unit := ⟨orderProcessor, (), "order.xml", orderValidator⟩

def orderEntries : List Entry := [
  .activePattern none none "order.xml",
  .firedRule "item[@special]" none (some "warning") none,
  .finding {
    kind := .failedAssert, test := "note", location := "/order/item[1]/@sku"
    id := none, role := none, flag := none, diagnostics := [("why", "Special items")]
    text := "A note is missing" },
  .firedRule "item" none none none,
  .finding {
    kind := .failedAssert, test := "@quantity <= $limit", location := "/order/item[2]"
    id := none, role := none, flag := none, diagnostics := [], text := "Too many" }]

theorem ofSchema_orderSchema :
    Validator.ofSchema orderProcessor none orderSchema = .ok orderRun.validator := by rfl

theorem report_orderRun : orderRun.report = .ok (ofEntries orderRun.header orderEntries) := by rfl

theorem selectsUnion_orderRun : ∀ p ∈ orderRun.validator.patterns, orderRun.SelectsUnion p := by
  intro p hp env union nodes _ hs hn
  obtain rfl := List.mem_singleton.1 hp
  cases hs
  cases hn
  refine ⟨by decide, fun node => ?_⟩
  have special : orderRun.selects env node specialRule = ["/order/item[1]"].contains node := rfl
  have all : orderRun.selects env node itemRule =
      ["/order/item[1]", "/order/item[2]"].contains node := rfl
  simp [special, all, Value.paths]

/-- The special item fires the first rule only. -/
theorem fires_first_rule_orders :
    Validator.ofSchema orderProcessor none orderSchema = .ok orderRun.validator ∧
      (∀ p ∈ orderRun.validator.patterns, orderRun.SelectsUnion p) ∧
      orderRun.report = .ok (ofEntries orderRun.header orderEntries) ∧
      ∃ as, ofEntries orderRun.header orderEntries = orderRun.reportOf as ∧
        List.Forall₂ orderRun.FiresFirst orderRun.validator.patterns as :=
  ⟨ofSchema_orderSchema, selectsUnion_orderRun, report_orderRun,
    fires_first_rule ofSchema_orderSchema selectsUnion_orderRun report_orderRun⟩

end Schematron.Validator.Run
