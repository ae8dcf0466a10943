import Schematron.Proofs.Sequencing
import Schematron.Rules.Execution

/-!
# Scopes in a shared context

A run keeps one context and rebinds variables in it. This file reads the same run without a shared
context: an environment is a value that is passed down, so whatever a scope binds is seen inside it
and nowhere else. `Run.report_eq` says that the two readings give the same report and the same
error. Its core is `Run.enter_leave`: what is bound on entering a scope and taken back on leaving it
restores the context exactly, also where names shadow outer ones or are repeated in one scope.
-/
namespace Schematron.Validator.Run
open XPath Report Sequencing

variable {D : Type} {α β : Type}

/-- The environment with one more variable, bound to its value at a node. -/
def bindIn (r : Run D) (node : NodePath) (env : XPath.Environment) (b : Binding) :
    Except EngineError XPath.Environment := do
  let _ ← (Processor.lookup env b.name).mapError .ofProcessor
  let v ← r.eval env b.value node
  (r.processor.bindVariable env b.name v).mapError .ofProcessor

/-- The environment inside a scope that is entered at a node. -/
def scope (r : Run D) (node : NodePath) (env : XPath.Environment) (bs : List Binding) :
    Except EngineError XPath.Environment :=
  bs.foldlM (r.bindIn node) env

theorem bind_apply (x : Step α) (f : α → Step β) (env : XPath.Environment) :
    (x >>= f) env = x env >>= fun o => f o.1 o.2 := rfl

theorem pure_apply (a : α) (env : XPath.Environment) : (pure a : Step α) env = .ok (a, env) := rfl

theorem pure_eq_reading (a : α) : (pure a : Step α) = reading fun _ => .ok a := rfl

theorem reading_bind (f : XPath.Environment → Except EngineError α)
    (g : α → XPath.Environment → Except EngineError β) :
    (reading f >>= fun a => reading (g a)) = reading fun env => f env >>= fun a => g a env := by
  funext env
  simp only [reading, bind, StateT.bind]
  cases f env <;> rfl

theorem map_reading (g : α → β) (f : XPath.Environment → Except EngineError α) :
    g <$> reading f = reading fun env => g <$> f env := by
  rw [map_eq_pure_bind]
  simp only [pure_eq_reading, reading_bind, map_eq_pure_bind, pure_eq_ok]

/-- Steps that keep the context keep it on a whole list. -/
theorem mapM_reading (f : α → XPath.Environment → Except EngineError β) (as : List α) :
    as.mapM (fun a => reading (f a)) = reading fun env => as.mapM (f · env) := by
  induction as with
  | nil => rfl
  | cons a as ih => simp only [List.mapM_cons, ih, pure_eq_reading, reading_bind, pure_eq_ok]

theorem bindVariable_bindVariable (env : XPath.Environment) (name : String) (v w : Option Value) :
    (env.bindVariable name v).bindVariable name w = env.bindVariable name w := by
  simp only [XPath.Environment.bindVariable, XPath.Environment.mk.injEq, true_and]
  funext n
  by_cases h : n = name <;> simp [h]

theorem bindVariable_valueOf (env : XPath.Environment) (name : String) :
    env.bindVariable name (env.valueOf name) = env := by
  cases env with
  | mk namespaceOf valueOf =>
    simp only [XPath.Environment.bindVariable, XPath.Environment.mk.injEq, true_and]
    funext n
    by_cases h : n = name <;> simp [h]

theorem lookup_eq_ok {env : XPath.Environment} {name : String} {v : Option Value} :
    Processor.lookup env name = .ok v ↔
      Processor.argument name = .ok () ∧ env.valueOf name = v := by
  simp [Processor.lookup, check_bind_eq_ok]

theorem bindVariable_eq_ok {p : Processor D} {env env' : XPath.Environment} {name : String}
    {v : Value} : p.bindVariable env name v = .ok env' ↔ Processor.argument name = .ok () ∧
      p.acceptsVariable name = true ∧ env.bindVariable name (some v) = env' := by
  cases h : p.acceptsVariable name <;>
    simp [Processor.bindVariable, check_bind_eq_ok, h, throw, throwThe, MonadExceptOf.throw]

theorem unbindVariable_eq_ok {env env' : XPath.Environment} {name : String} :
    Processor.unbindVariable env name = .ok env' ↔
      Processor.argument name = .ok () ∧ env.bindVariable name none = env' := by
  simp [Processor.unbindVariable, check_bind_eq_ok]

theorem bindOne_eq_ok {r : Run D} {node : NodePath} {b : Binding} {env inner : XPath.Environment}
    {s : Shadowed} : r.bindOne node b env = .ok (s, inner) ↔
      s = ⟨b.name, env.valueOf b.name⟩ ∧ r.bindIn node env b = .ok inner := by
  simp only [bindOne, bindIn, bind_eq_ok, mapError_eq_ok, lookup_eq_ok, pure_eq_ok,
    Except.ok.injEq, Prod.mk.injEq]
  constructor
  · rintro ⟨_, ⟨hn, rfl⟩, v, hv, env', he, rfl, rfl⟩
    exact ⟨rfl, _, ⟨hn, rfl⟩, v, hv, he⟩
  · rintro ⟨rfl, _, ⟨hn, rfl⟩, v, hv, he⟩
    exact ⟨_, ⟨hn, rfl⟩, v, hv, _, he, rfl, rfl⟩

/-- Taking a binding back gives the environment in which it was made, whether or not the name had a
value there. -/
theorem restoreOne_of_bindOne {r : Run D} {node : NodePath} {b : Binding}
    {env inner : XPath.Environment} {s : Shadowed} (h : r.bindOne node b env = .ok (s, inner)) :
    r.restoreOne s inner = .ok ((), env) := by
  obtain ⟨rfl, hb⟩ := bindOne_eq_ok.1 h
  simp only [bindIn, bind_eq_ok, mapError_eq_ok, bindVariable_eq_ok] at hb
  obtain ⟨_, _, v, _, hn, ha, rfl⟩ := hb
  have back := bindVariable_valueOf env b.name
  cases hw : env.valueOf b.name with
  | some w =>
    rw [hw] at back
    have hr : r.processor.bindVariable (env.bindVariable b.name (some v)) b.name w = .ok env := by
      rw [bindVariable_eq_ok, bindVariable_bindVariable]
      exact ⟨hn, ha, back⟩
    simp [restoreOne, hr, Except.mapError]
  | none =>
    rw [hw] at back
    have hr : Processor.unbindVariable (env.bindVariable b.name (some v)) b.name = .ok env := by
      rw [unbindVariable_eq_ok, bindVariable_bindVariable]
      exact ⟨hn, back⟩
    simp [restoreOne, hr, Except.mapError]

theorem snd_map_bindOne (r : Run D) (node : NodePath) (b : Binding) (env : XPath.Environment) :
    Prod.snd <$> r.bindOne node b env = r.bindIn node env b := by
  simp only [bindOne, bindIn]
  cases (Processor.lookup env b.name).mapError EngineError.ofProcessor with
  | error e => rfl
  | ok previous =>
    cases r.eval env b.value node with
    | error e => rfl
    | ok v =>
      cases h : (r.processor.bindVariable env b.name v).mapError EngineError.ofProcessor <;> simp [h]

/-- One binding around a step that keeps the context: the step sees the binding, and afterwards the
context is as before. -/
theorem bindOne_around (r : Run D) (node : NodePath) (b : Binding)
    (f : XPath.Environment → Except EngineError α) :
    (do let s ← r.bindOne node b
        let a ← reading f
        r.restoreOne s
        return a : Step α) = reading fun env => r.bindIn node env b >>= f := by
  funext env
  simp only [bind_apply, pure_apply, reading, ← snd_map_bindOne]
  cases h : r.bindOne node b env with
  | error e => simp
  | ok o =>
    obtain ⟨s, inner⟩ := o
    cases hf : f inner with
    | error e => simp [hf]
    | ok a => simp [hf, restoreOne_of_bindOne h]

theorem leave_cons (r : Run D) (s : Shadowed) (ss : List Shadowed) :
    r.leave (s :: ss) = (do r.leave ss; r.restoreOne s) := by
  simp [leave]

/-- A scope around a step that keeps the context: the step sees all bindings of the scope, and
afterwards the context is as before. The induction takes the first binding to be the outermost
scope, which is the last one to be taken back. -/
theorem enter_leave (r : Run D) (node : NodePath) (bs : List Binding)
    (f : XPath.Environment → Except EngineError α) :
    (do let ss ← r.enter node bs
        let a ← reading f
        r.leave ss
        return a : Step α) = reading fun env => r.scope node env bs >>= f := by
  induction bs with
  | nil => simp [enter, leave, scope]
  | cons b bs ih =>
    have inner : ∀ s : Shadowed, (do
        let ss ← r.enter node bs
        let a ← reading f
        r.leave ss
        r.restoreOne s
        return a : Step α) = (do
        let a ← reading fun env => r.scope node env bs >>= f
        r.restoreOne s
        return a : Step α) := by
      intro s
      rw [← ih]
      simp only [bind_assoc, pure_bind]
    calc (do let ss ← r.enter node (b :: bs)
             let a ← reading f
             r.leave ss
             return a : Step α)
        = (do let s ← r.bindOne node b
              let ss ← r.enter node bs
              let a ← reading f
              r.leave ss
              r.restoreOne s
              return a : Step α) := by
          simp only [enter, List.mapM_cons, bind_assoc, pure_bind, leave_cons]
      _ = (do let s ← r.bindOne node b
              let a ← reading fun env => r.scope node env bs >>= f
              r.restoreOne s
              return a : Step α) := by simp only [inner]
      _ = reading fun env => r.bindIn node env b >>= fun env => r.scope node env bs >>= f :=
          bindOne_around r node b _
      _ = reading fun env => r.scope node env (b :: bs) >>= f := by
          simp only [scope, List.foldlM_cons, bind_assoc]

/-- A rule that fires at a node: the environment inside its scope, and what its tests find. -/
structure Firing where
  node : NodePath
  rule : Rule
  env : XPath.Environment
  findings : List Finding

def Firing.entries (f : Firing) : List Entry :=
  .firedRule f.rule.context f.rule.id f.rule.role f.rule.flag :: f.findings.map .finding

/-- An active pattern: the environment inside its scope, and its rules that fire. -/
structure Activation where
  pattern : Pattern
  env : XPath.Environment
  firings : List Firing

def Activation.entries (systemId : String) (a : Activation) : List Entry :=
  .activePattern a.pattern.id a.pattern.name systemId :: a.firings.flatMap Firing.entries

/-- Fires a rule at a node, from the environment outside its scope. -/
def fire (r : Run D) (env : XPath.Environment) (rule : Rule) (node : NodePath) :
    Except EngineError Firing := do
  let inner ← r.scope node env rule.lets
  return ⟨node, rule, inner, ← r.runTests inner rule node⟩

def matched (claims : List (Rule × List NodePath)) (nodes : List NodePath) :
    List (NodePath × Rule) :=
  nodes.filterMap fun node => (claimant? claims node).map (node, ·)

def fireAll (r : Run D) (env : XPath.Environment) (p : Pattern) :
    Except EngineError (List Firing) :=
  match p.selection with
  | none => .ok []
  | some union => do
    let claims ← r.claims env p.rules
    let nodes ← r.select env union
    (matched claims nodes).mapM fun m => r.fire env m.2 m.1

def activate (r : Run D) (env : XPath.Environment) (p : Pattern) :
    Except EngineError Activation := do
  let inner ← r.scope documentPath env p.lets
  return ⟨p, inner, ← r.fireAll inner p⟩

def start (r : Run D) : Except EngineError XPath.Environment := do
  r.scope documentPath (← r.context) r.validator.lets

/-- Activates all patterns, each from the environment of the schema. -/
def activations (r : Run D) : Except EngineError (List Activation) := do
  let env ← r.start
  r.validator.patterns.mapM (r.activate env)

def reportOf (r : Run D) (as : List Activation) : Report :=
  ofEntries r.header (as.flatMap (Activation.entries r.systemId))

theorem runRule_eq (r : Run D) (rule : Rule) (node : NodePath) :
    r.runRule rule node = reading fun env => Firing.entries <$> r.fire env rule node := by
  have h := enter_leave r node rule.lets fun env => r.runTests env rule node
  calc r.runRule rule node
      = (fun found => .firedRule rule.context rule.id rule.role rule.flag :: found.map .finding) <$>
          (do let ss ← r.enter node rule.lets
              let found ← reading fun env => r.runTests env rule node
              r.leave ss
              return found : Step (List Finding)) := by simp only [runRule, map_bind, map_pure]
    _ = reading fun env => Firing.entries <$> r.fire env rule node := by
        rw [h, map_reading]
        simp only [fire, Firing.entries, map_eq_pure_bind, bind_assoc, pure_bind]

theorem runNode_eq (r : Run D) (claims : List (Rule × List NodePath)) (node : NodePath) :
    r.runNode claims node = reading fun env => match claimant? claims node with
      | some rule => Firing.entries <$> r.fire env rule node
      | none => .ok [] := by
  unfold runNode
  cases claimant? claims node with
  | none => rfl
  | some rule => exact runRule_eq r rule node

theorem runNodes_eq (r : Run D) (claims : List (Rule × List NodePath)) (nodes : List NodePath) :
    List.flatten <$> nodes.mapM (r.runNode claims) = reading fun env =>
      List.flatMap Firing.entries <$> (matched claims nodes).mapM fun m => r.fire env m.2 m.1 := by
  rw [funext (runNode_eq r claims), mapM_reading, map_reading]
  congr 1
  funext env
  induction nodes with
  | nil => rfl
  | cons node nodes ih =>
    cases hc : claimant? claims node with
    | none =>
      have hm : matched claims (node :: nodes) = matched claims nodes := by simp [matched, hc]
      rw [hm, ← ih]
      simp [List.mapM_cons, hc, map_eq_pure_bind]
    | some rule =>
      have hm : matched claims (node :: nodes) = (node, rule) :: matched claims nodes := by
        simp [matched, hc]
      have rest := fun es : List Entry => congrArg (fun x => (es ++ ·) <$> x) ih
      simp only [map_eq_pure_bind, bind_assoc, pure_bind] at rest
      simp only [hm, hc, List.mapM_cons, map_eq_pure_bind, bind_assoc, pure_bind, List.flatten_cons,
        List.flatMap_cons, rest]

theorem runRules_eq (r : Run D) (p : Pattern) :
    r.runRules p = reading fun env => List.flatMap Firing.entries <$> r.fireAll env p := by
  unfold runRules fireAll
  cases p.selection with
  | none => rfl
  | some union =>
    simp only [bind_pure_comp, runNodes_eq, reading_bind, map_bind]

theorem runPattern_eq (r : Run D) (p : Pattern) :
    r.runPattern p = reading fun env => Activation.entries r.systemId <$> r.activate env p := by
  have h := enter_leave r documentPath p.lets fun env =>
    List.flatMap Firing.entries <$> r.fireAll env p
  calc r.runPattern p
      = (.activePattern p.id p.name r.systemId :: ·) <$>
          (do let ss ← r.enter documentPath p.lets
              let found ← reading fun env => List.flatMap Firing.entries <$> r.fireAll env p
              r.leave ss
              return found : Step (List Entry)) := by
        simp only [runPattern, runRules_eq, map_bind, map_pure]
    _ = reading fun env => Activation.entries r.systemId <$> r.activate env p := by
        rw [h, map_reading]
        simp only [activate, Activation.entries, map_eq_pure_bind, bind_assoc, pure_bind]

theorem snd_map_enter (r : Run D) (node : NodePath) (bs : List Binding) (env : XPath.Environment) :
    Prod.snd <$> r.enter node bs env = r.scope node env bs := by
  induction bs generalizing env with
  | nil => rfl
  | cons b bs ih =>
    have step : r.enter node (b :: bs) env = r.bindOne node b env >>= fun o =>
        r.enter node bs o.2 >>= fun o' => .ok (o.1 :: o'.1, o'.2) := by
      simp only [enter, List.mapM_cons, bind_apply, pure_apply]
    rw [step]
    simp only [scope, List.foldlM_cons, ← snd_map_bindOne] at ih ⊢
    simp only [← ih, map_eq_pure_bind, bind_assoc, pure_bind, ← pure_eq_ok]

theorem runPatterns_eq (r : Run D) (env : XPath.Environment) :
    r.runPatterns.run' env = (do
      let env ← r.scope documentPath env r.validator.lets
      List.flatMap (Activation.entries r.systemId) <$>
        r.validator.patterns.mapM (r.activate env)) := by
  have h : r.validator.patterns.mapM r.runPattern = reading fun env =>
      List.map (Activation.entries r.systemId) <$> r.validator.patterns.mapM (r.activate env) := by
    rw [funext r.runPattern_eq, mapM_reading]
    simp only [mapM_map_comm]
  simp only [StateT.run', runPatterns, h, bind_apply, pure_apply, reading, ← snd_map_enter,
    map_eq_pure_bind, bind_assoc, pure_bind, List.flatMap_def, ← pure_eq_ok]

/-- The run in one shared context gives the report, or the error, of the run that passes
environments down: a variable is seen in its scope and nowhere else. -/
theorem report_eq (r : Run D) : r.report = r.reportOf <$> r.activations := by
  simp only [report, runPatterns_eq, activations, start, reportOf, map_eq_pure_bind, bind_assoc,
    pure_bind]

theorem report_eq_ok {r : Run D} {rep : Report} :
    r.report = .ok rep ↔ ∃ as, r.activations = .ok as ∧ rep = r.reportOf as := by
  rw [report_eq, map_eq_ok]
  simp only [eq_comm]

end Schematron.Validator.Run
