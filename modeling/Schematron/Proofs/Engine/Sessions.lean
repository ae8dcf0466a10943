import Schematron.Proofs.Engine.Preparation
import Schematron.Proofs.Execution.Firing
import Mathlib.Logic.Function.Iterate

/-!
# Calls that share an engine

Any number of calls use one engine. Each needs the grammar first and the validator next, and between
the two steps of one call others may take theirs; what a schema compiles to may differ from one step
to the next (`Host`). A slot answers with the failures of builds until one succeeds, and with what
was built then ever after (`Slot.Gave`). `Session.Lawful` is what every step keeps; a call that
starts when another one has succeeded succeeds too (`Session.Lawful.succeeds`).

A step is one use of a slot, which the slot's lock makes atomic; what a call does between its steps
touches nothing that is shared.
-/
namespace Schematron

namespace Slot
variable {α ε : Type}

/-- A slot has given answers, in order. As long as every build has failed, each answer is the
failure of another build; what has been built once is given ever after, and never built again. -/
inductive Gave : Slot α → List (Except ε α) → Prop where
  | failing (errors : List ε) : Gave ⟨none, errors.length⟩ (errors.map .error)
  | built (errors : List ε) (a : α) (again : Nat) :
    Gave ⟨some a, errors.length + 1⟩ (errors.map .error ++ .ok a :: List.replicate again (.ok a))

theorem Gave.get {s : Slot α} {answers : List (Except ε α)} (h : s.Gave answers)
    (attempt : Unit → Except ε α) :
    (s.get attempt).2.Gave (answers ++ [(s.get attempt).1]) := by
  cases h with
  | failing errors =>
    cases ha : attempt () with
    | error e =>
      have hlog := Gave.failing (α := α) (errors ++ [e])
      simpa [Slot.get, ha] using hlog
    | ok a =>
      have hlog := Gave.built errors a 0
      simpa [Slot.get, ha] using hlog
  | built errors a again =>
    have hlog := Gave.built errors a (again + 1)
    simpa [Slot.get, List.replicate_succ'] using hlog

/-- A slot that has not been used is empty and has built nothing. -/
theorem Gave.eq_empty {s : Slot α} (h : s.Gave ([] : List (Except ε α))) : s = {} := by
  generalize hl : ([] : List (Except ε α)) = answers at h
  cases h with
  | failing errors =>
    obtain rfl := List.map_eq_nil_iff.1 hl.symm
    rfl
  | built errors a again => simp at hl

end Slot

namespace Engine
variable {D : Type}

/-- What compiling a schema depends on besides the schema. -/
structure Host (D : Type) where
  processor : Processor D
  resolver : Inclusion.Resolver
  directory : String

def host (e : Engine D) : Host D := ⟨e.processor, e.resolver, e.directory⟩

def within (e : Engine D) (h : Host D) : Engine D :=
  { e with processor := h.processor, resolver := h.resolver, directory := h.directory }

inductive Request where
  | prepare
  | validate (source : DocumentSource)
  deriving Repr, Inhabited

def serve (e : Engine D) : Request → Except EngineError (Option Outcome) × Engine D
  | .prepare => (e.prepare.1.map fun _ => none, e.prepare.2)
  | .validate source => ((e.validate source).1.map some, (e.validate source).2)

inductive Task (D : Type) where
  /-- The grammar is needed next. -/
  | grammar
  /-- The validator is needed next. -/
  | rules (g : Option (Grammar D))
  | failed (e : EngineError)
  | complete (g : Option (Grammar D)) (v : Validator)

def Task.afterGrammar : Except EngineError (Option (Grammar D)) → Task D
  | .ok g => .rules g
  | .error e => .failed e

def Task.afterRules (g : Option (Grammar D)) : Except EngineError Validator → Task D
  | .ok v => .complete g v
  | .error e => .failed e

/-- What the slot of the grammar was asked for and gave when the grammar was needed. -/
def given : Except EngineError (Option (Grammar D)) → List (Except EngineError (Grammar D))
  | .ok none => []
  | .ok (some g) => [.ok g]
  | .error e => [.error e]

structure Call (D : Type) where
  request : Request
  task : Task D := .grammar

def Call.answer? (p : Processor D) (c : Call D) : Option (Except EngineError (Option Outcome)) :=
  match c.task, c.request with
  | .grammar, _ | .rules _, _ => none
  | .failed e, _ => some (.error e)
  | .complete _ _, .prepare => some (.ok none)
  | .complete g v, .validate source => some (.ok (some (check p g v source)))

structure Move (D : Type) where
  call : Nat
  host : Host D

/-- An engine and the calls that use it, with what its slots have answered in order. -/
structure Session (D : Type) where
  engine : Engine D
  calls : Nat → Call D
  grammars : List (Except EngineError (Grammar D)) := []
  validators : List (Except EngineError Validator) := []

namespace Session

def start (e : Engine D) (requests : Nat → Request) : Session D where
  engine := e
  calls i := { request := requests i }

def enter (s : Session D) (i : Nat) (t : Task D) : Nat → Call D :=
  Function.update s.calls i { s.calls i with task := t }

/-- The session after a move; a call that has returned moves no more. -/
def step (s : Session D) (m : Move D) : Session D :=
  match (s.calls m.call).task with
  | .grammar =>
    let (r, engine) := (s.engine.within m.host).needGrammar
    { s with engine, calls := s.enter m.call (.afterGrammar r), grammars := s.grammars ++ given r }
  | .rules g =>
    let (r, engine) := (s.engine.within m.host).needValidator
    { s with engine, calls := s.enter m.call (.afterRules g r), validators := s.validators ++ [r] }
  | .failed _ | .complete _ _ => s

def run (s : Session D) (ms : List (Move D)) : Session D := ms.foldl step s

end Session

section Steps
variable {e e' : Engine D} {g : Option (Grammar D)} {v : Validator}

/-- Needing the grammar changes nothing but the slot of the grammar. -/
theorem needGrammar_frame {r : Except EngineError (Option (Grammar D))}
    (h : e.needGrammar = (r, e')) : ∃ slot, e' = { e with grammar := slot } := by
  unfold needGrammar at h
  split at h
  · cases h
    exact ⟨e.grammar, rfl⟩
  · cases h
    exact ⟨_, rfl⟩

theorem needValidator_frame {r : Except EngineError Validator} (h : e.needValidator = (r, e')) :
    ∃ slot, e' = { e with validator := slot } := by
  cases h
  exact ⟨_, rfl⟩

theorem gave_of_needGrammar {answers : List (Except EngineError (Grammar D))}
    {r : Except EngineError (Option (Grammar D))} (hgave : e.grammar.Gave answers)
    (h : e.needGrammar = (r, e')) : e'.grammar.Gave (answers ++ given r) := by
  unfold needGrammar at h
  split at h
  · cases h
    simpa [given] using hgave
  · have hget := hgave.get fun _ => e.compileGrammar
    rcases hs : e.grammar.get fun _ => e.compileGrammar with ⟨a, slot⟩
    rw [hs] at h hget
    cases a <;> cases h <;> exact hget

/-- A slot that is empty after the grammar was needed was empty before. -/
theorem value_eq_none_of_needGrammar {r : Except EngineError (Option (Grammar D))}
    (h : e.needGrammar = (r, e')) (hnone : e'.grammar.value = none) : e.grammar.value = none := by
  cases hv : e.grammar.value with
  | none => rfl
  | some a =>
    unfold needGrammar at h
    rw [Slot.get_of_some hv] at h
    split at h <;> cases h <;> rw [hv] at hnone <;> cases hnone

theorem given_of_needGrammar {r : Except EngineError (Option (Grammar D))}
    (h : e.needGrammar = (r, e')) (hk : e.kind = .assertions) : given r = [] := by
  have hg : e.HasGrammar none := hk
  rw [hg.needGrammar] at h
  cases h
  rfl

theorem gave_of_needValidator {answers : List (Except EngineError Validator)}
    {r : Except EngineError Validator} (hgave : e.validator.Gave answers)
    (h : e.needValidator = (r, e')) : e'.validator.Gave (answers ++ [r]) := by
  cases h
  exact hgave.get fun _ => e.compileRules

/-- An engine keeps a grammar that it has. -/
theorem HasGrammar.keep {r : Except EngineError (Option (Grammar D))} (hg : e.HasGrammar g)
    (h : e.needGrammar = (r, e')) : e'.HasGrammar g := by
  rw [hg.needGrammar] at h
  cases h
  exact hg

theorem HasValidator.keep {r : Except EngineError Validator} (hv : e.HasValidator v)
    (h : e.needValidator = (r, e')) : e'.HasValidator v := by
  rw [hv.needValidator] at h
  cases h
  exact hv

theorem HasGrammar.value_ne_none (hg : e.HasGrammar g) (hk : e.kind = .grammar) :
    e.grammar.value ≠ none := by
  cases g with
  | none =>
    have ha : e.kind = .assertions := hg
    rw [hk] at ha
    cases ha
  | some a => simp [hg.2]

theorem hasGrammar_within {host : Host D} : (e.within host).HasGrammar g ↔ e.HasGrammar g := by
  cases g <;> rfl

end Steps

namespace Session

inductive Stepped (s : Session D) (m : Move D) : Session D → Prop where
  | grammar {r engine} (task : (s.calls m.call).task = .grammar)
      (needed : (s.engine.within m.host).needGrammar = (r, engine)) :
      Stepped s m { s with
        engine, calls := s.enter m.call (.afterGrammar r), grammars := s.grammars ++ given r }
  | rules {g r engine} (task : (s.calls m.call).task = .rules g)
      (needed : (s.engine.within m.host).needValidator = (r, engine)) :
      Stepped s m { s with
        engine, calls := s.enter m.call (.afterRules g r), validators := s.validators ++ [r] }
  | returned (answer : ((s.calls m.call).answer? m.host.processor).isSome = true) : Stepped s m s

theorem stepped (s : Session D) (m : Move D) : Stepped s m (s.step m) := by
  unfold step
  cases task : (s.calls m.call).task with
  | grammar => exact .grammar task rfl
  | rules g => exact .rules task rfl
  | failed e => exact .returned (by simp [Call.answer?, task])
  | complete g v =>
    exact .returned (by cases hr : (s.calls m.call).request <;> simp [Call.answer?, task, hr])

/-- A call that is left alone with an engine does what the engine does for its request. -/
theorem run_alone (s : Session D) (i : Nat) (h : (s.calls i).task = .grammar) :
    let t := s.run [⟨i, s.engine.host⟩, ⟨i, s.engine.host⟩]
    (t.calls i).answer? s.engine.processor = some (s.engine.serve (s.calls i).request).1 ∧
      t.engine = (s.engine.serve (s.calls i).request).2 := by
  have hsame : s.engine.within s.engine.host = s.engine := rfl
  intro t
  rcases hn : s.engine.needGrammar with ⟨r, e₁⟩
  obtain ⟨slot, rfl⟩ := needGrammar_frame hn
  cases r with
  | error err =>
    have hall : s.engine.needAll = (.error err, { s.engine with grammar := slot }) := by
      simp [needAll, hn]
    cases hr : (s.calls i).request <;>
      simp [t, run, step, h, hsame, hn, enter, Task.afterGrammar, Call.answer?, serve, prepare,
        validate, hall, hr, Except.map]
  | ok g =>
    have hsame' : Engine.within { s.engine with grammar := slot } s.engine.host =
      { s.engine with grammar := slot } := rfl
    rcases hm : Engine.needValidator { s.engine with grammar := slot } with ⟨r', e₂⟩
    have hall : s.engine.needAll = (r'.map fun v => (g, v), e₂) := by
      cases r' <;> simp [needAll, hn, hm, Except.map]
    obtain ⟨slot', rfl⟩ := needValidator_frame hm
    cases hr : (s.calls i).request <;> cases r' <;>
      simp [t, run, step, h, hsame, hsame', hn, hm, enter, Task.afterGrammar, Task.afterRules,
        Call.answer?, serve, prepare, validate, hall, hr, Except.map]

/-- A call goes by what the engine has. -/
def Serves (e : Engine D) : Task D → Prop
  | .grammar | .failed _ => True
  | .rules g => e.HasGrammar g
  | .complete g v => e.HasGrammar g ∧ e.HasValidator v

structure Lawful (s : Session D) : Prop where
  grammars : s.engine.grammar.Gave s.grammars
  validators : s.engine.validator.Gave s.validators
  serves : ∀ i, Serves s.engine (s.calls i).task
  /-- No rules are compiled before the grammar is there. -/
  ordered : s.engine.kind = .grammar → s.engine.grammar.value = none → s.validators = []
  /-- A schema that is no grammar has none compiled. -/
  ungoverned : s.engine.kind = .assertions → s.grammars = []

theorem serves_enter {s : Session D} {e : Engine D} {i : Nat} {t : Task D} (ht : Serves e t)
    (hs : ∀ j, Serves e (s.calls j).task) (j : Nat) : Serves e (s.enter i t j).task := by
  by_cases hj : j = i
  · subst hj
    simpa [enter] using ht
  · simpa [enter, hj] using hs j

theorem Serves.after_needGrammar {e e' : Engine D} {r : Except EngineError (Option (Grammar D))}
    {t : Task D} (ht : Serves e t) (h : e.needGrammar = (r, e')) : Serves e' t := by
  obtain ⟨slot, he⟩ := needGrammar_frame h
  cases t with
  | grammar | failed _ => trivial
  | rules g => exact HasGrammar.keep ht h
  | complete g v =>
    have hv : e'.HasValidator v := by
      rw [he]
      exact ht.2
    exact ⟨ht.1.keep h, hv⟩

theorem Serves.after_needValidator {e e' : Engine D} {r : Except EngineError Validator}
    {t : Task D} (ht : Serves e t) (h : e.needValidator = (r, e')) : Serves e' t := by
  obtain ⟨slot, he⟩ := needValidator_frame h
  cases t with
  | grammar | failed _ => trivial
  | rules g =>
    rw [he]
    exact ht
  | complete g v =>
    have hg : e'.HasGrammar g := by
      rw [he]
      exact ht.1
    exact ⟨hg, ht.2.keep h⟩

theorem serves_within {e : Engine D} {host : Host D} {t : Task D} (h : Serves e t) :
    Serves (e.within host) t := by
  cases t with
  | grammar | failed _ => trivial
  | rules g => exact hasGrammar_within.2 h
  | complete g v => exact ⟨hasGrammar_within.2 h.1, h.2⟩

theorem lawful_start {e : Engine D} (hg : e.grammar = {}) (hv : e.validator = {})
    (requests : Nat → Request) : (start e requests).Lawful where
  grammars := by
    have h := Slot.Gave.failing (ε := EngineError) (α := Grammar D) []
    simpa [start, hg] using h
  validators := by
    have h := Slot.Gave.failing (ε := EngineError) (α := Validator) []
    simpa [start, hv] using h
  serves _ := trivial
  ordered _ _ := rfl
  ungoverned _ := rfl

theorem serves_afterGrammar {e e' : Engine D} {r : Except EngineError (Option (Grammar D))}
    (h : e.needGrammar = (r, e')) : Serves e' (.afterGrammar r) := by
  cases r with
  | error err => trivial
  | ok g => exact hasGrammar_of_needGrammar h

theorem serves_afterRules {e e' : Engine D} {g : Option (Grammar D)}
    {r : Except EngineError Validator} (hg : e'.HasGrammar g) (h : e.needValidator = (r, e')) :
    Serves e' (.afterRules g r) := by
  cases r with
  | error err => trivial
  | ok v => exact ⟨hg, hasValidator_of_needValidator h⟩

theorem Lawful.step {s : Session D} (h : s.Lawful) (m : Move D) : (s.step m).Lawful := by
  have hserves : ∀ j, Serves (s.engine.within m.host) (s.calls j).task :=
    fun j => serves_within (h.serves j)
  have hgrammars : (s.engine.within m.host).grammar.Gave s.grammars := h.grammars
  have hvalidators : (s.engine.within m.host).validator.Gave s.validators := h.validators
  have hstep := stepped s m
  generalize s.step m = t at hstep
  cases hstep with
  | grammar task needed =>
    have hgave := gave_of_needGrammar hgrammars needed
    have hcalls := serves_enter (i := m.call) (serves_afterGrammar needed) fun j =>
      (hserves j).after_needGrammar needed
    have hunfilled := value_eq_none_of_needGrammar needed
    have hgiven := given_of_needGrammar needed
    obtain ⟨slot, rfl⟩ := needGrammar_frame needed
    refine ⟨hgave, h.validators, hcalls, ?_, ?_⟩
    · intro hk hnone
      exact h.ordered hk (hunfilled hnone)
    · intro hk
      rw [h.ungoverned hk, hgiven hk]
      rfl
  | @rules g r engine task needed =>
    have hg := hserves m.call
    rw [task] at hg
    have hgave := gave_of_needValidator hvalidators needed
    have hafter := serves_afterRules (hg.after_needValidator needed) needed
    have hcalls := serves_enter (i := m.call) hafter fun j =>
      (hserves j).after_needValidator needed
    obtain ⟨slot, rfl⟩ := needValidator_frame needed
    refine ⟨h.grammars, hgave, hcalls, ?_, h.ungoverned⟩
    intro hk hnone
    exact absurd hnone (HasGrammar.value_ne_none hg hk)
  | returned _ => exact h

theorem Lawful.run {s : Session D} (h : s.Lawful) (ms : List (Move D)) : (s.run ms).Lawful := by
  induction ms generalizing s with
  | nil => exact h
  | cons m ms ih => exact ih (h.step m)

/-- The next stage of a call when the engine has everything. -/
def Task.served (g : Option (Grammar D)) (v : Validator) : Task D → Task D
  | .grammar => .rules g
  | .rules g' => .complete g' v
  | .failed e => .failed e
  | .complete g' v' => .complete g' v'

theorem step_of_has {s : Session D} {g : Option (Grammar D)} {v : Validator}
    (hg : s.engine.HasGrammar g) (hv : s.engine.HasValidator v) (m : Move D) :
    (s.step m).engine.HasGrammar g ∧ (s.step m).engine.HasValidator v ∧
      (s.step m).calls = s.enter m.call (Task.served g v (s.calls m.call).task) := by
  have hg' : (s.engine.within m.host).HasGrammar g := hasGrammar_within.2 hg
  have hv' : (s.engine.within m.host).HasValidator v := hv
  cases task : (s.calls m.call).task with
  | grammar =>
    simp only [step, task, hg'.needGrammar]
    exact ⟨hg', hv', rfl⟩
  | rules g' =>
    simp only [step, task, hv'.needValidator]
    exact ⟨hg', hv', rfl⟩
  | failed e =>
    simp only [step, task]
    refine ⟨hg, hv, ?_⟩
    simp [enter, Task.served, ← task]
  | complete g' v' =>
    simp only [step, task]
    refine ⟨hg, hv, ?_⟩
    simp [enter, Task.served, ← task]

/-- Once the engine has everything, each call goes its way undisturbed. -/
theorem calls_run {s : Session D} {g : Option (Grammar D)} {v : Validator}
    (hg : s.engine.HasGrammar g) (hv : s.engine.HasValidator v) (ms : List (Move D)) (j : Nat) :
    (s.run ms).calls j = { s.calls j with
      task := (Task.served g v)^[ms.countP (·.call = j)] (s.calls j).task } := by
  induction ms generalizing s with
  | nil => rfl
  | cons m ms ih =>
    obtain ⟨hg', hv', hcalls⟩ := step_of_has hg hv m
    have hrun : s.run (m :: ms) = (s.step m).run ms := rfl
    rw [hrun, ih hg' hv', hcalls]
    by_cases hj : m.call = j
    · subst hj
      simp [enter, Function.iterate_succ_apply]
    · have hne : j ≠ m.call := fun h => hj h.symm
      simp [enter, hj, hne]

theorem iterate_served {g : Option (Grammar D)} {v : Validator} {n : Nat} (h : 2 ≤ n) :
    (Task.served g v)^[n] .grammar = .complete g v := by
  obtain ⟨k, rfl⟩ := Nat.exists_eq_add_of_le' h
  have hfixed : Task.served g v (.complete g v) = .complete g v := rfl
  calc (Task.served g v)^[k + 2] .grammar
      = (Task.served g v)^[k] (.complete g v) := rfl
    _ = .complete g v := Function.iterate_fixed hfixed k

theorem Lawful.has_of_answer {s : Session D} (h : s.Lawful) {i : Nat} {p : Processor D}
    {o : Option Outcome} (ho : (s.calls i).answer? p = some (.ok o)) :
    ∃ g v, s.engine.HasGrammar g ∧ s.engine.HasValidator v := by
  have hserves := h.serves i
  cases task : (s.calls i).task with
  | grammar | rules _ | failed _ => simp [Call.answer?, task] at ho
  | complete g v =>
    rw [task] at hserves
    exact ⟨g, v, hserves⟩

theorem answer_complete {c : Call D} {g : Option (Grammar D)} {v : Validator}
    (h : c.task = .complete g v) (p : Processor D) : ∃ o, c.answer? p = some (.ok o) := by
  cases hr : c.request <;> simp [Call.answer?, h, hr]

/-- When a call has succeeded, every call that is still to start succeeds, once it has taken its two
steps. -/
theorem Lawful.succeeds {s : Session D} (h : s.Lawful) {i j : Nat} {p : Processor D}
    {o : Option Outcome} (ho : (s.calls i).answer? p = some (.ok o))
    (hj : (s.calls j).task = .grammar) {ms : List (Move D)} (hms : 2 ≤ ms.countP (·.call = j))
    (p' : Processor D) : ∃ o', ((s.run ms).calls j).answer? p' = some (.ok o') := by
  obtain ⟨g, v, hg, hv⟩ := h.has_of_answer ho
  have htask : ((s.run ms).calls j).task = .complete g v := by
    rw [calls_run hg hv, hj]
    exact iterate_served hms
  exact answer_complete htask p'

/-- A move changes no other call. -/
theorem calls_step_of_ne {s : Session D} {m : Move D} {j : Nat} (h : m.call ≠ j) :
    (s.step m).calls j = s.calls j := by
  have hne : j ≠ m.call := fun hj => h hj.symm
  have hstep := stepped s m
  generalize s.step m = t at hstep
  cases hstep <;> simp [enter, hne]

theorem calls_run_of_ne {s : Session D} {ms : List (Move D)} {j : Nat}
    (h : ∀ m ∈ ms, m.call ≠ j) : (s.run ms).calls j = s.calls j := by
  induction ms generalizing s with
  | nil => rfl
  | cons m ms ih =>
    obtain ⟨hm, hms⟩ := List.forall_mem_cons.1 h
    exact (ih hms).trans (calls_step_of_ne hm)

theorem builds_step_grammar {s : Session D} {m : Move D} (hk : s.engine.kind = .grammar)
    (hnone : s.engine.grammar.value = none) (task : (s.calls m.call).task = .grammar) :
    (s.step m).engine.grammar.builds = s.engine.grammar.builds + 1 := by
  have hbuilds : (s.engine.within m.host).needGrammar.2.grammar.builds =
      s.engine.grammar.builds + 1 := by
    simp [needGrammar, within, hk, Slot.builds_get, hnone]
  simpa [step, task] using hbuilds

theorem builds_step_rules {s : Session D} {m : Move D} {g : Option (Grammar D)}
    (hnone : s.engine.validator.value = none) (task : (s.calls m.call).task = .rules g) :
    (s.step m).engine.validator.builds = s.engine.validator.builds + 1 := by
  have hbuilds : (s.engine.within m.host).needValidator.2.validator.builds =
      s.engine.validator.builds + 1 := by
    simp [needValidator, within, Slot.builds_get, hnone]
  simpa [step, task] using hbuilds

theorem kind_step (s : Session D) (m : Move D) : (s.step m).engine.kind = s.engine.kind := by
  have hstep := stepped s m
  generalize s.step m = t at hstep
  cases hstep with
  | grammar task needed =>
    obtain ⟨slot, rfl⟩ := needGrammar_frame needed
    rfl
  | rules task needed =>
    obtain ⟨slot, rfl⟩ := needValidator_frame needed
    rfl
  | returned _ => rfl

theorem kind_run (s : Session D) (ms : List (Move D)) : (s.run ms).engine.kind = s.engine.kind := by
  induction ms generalizing s with
  | nil => rfl
  | cons m ms ih => exact (ih (s.step m)).trans (kind_step s m)

theorem slots_of_build {processor : Processor D} {resolver : Inclusion.Resolver}
    {directory : String} {schema : SchemaSource} {phase : Option String} {e : Engine D}
    (h : build processor resolver directory schema phase = .ok e) :
    e.grammar = {} ∧ e.validator = {} := by
  unfold build at h
  obtain ⟨kind, _, hpure⟩ := Sequencing.bind_eq_ok.1 h
  cases hpure
  exact ⟨rfl, rfl⟩

/-- What holds after any steps of any calls on a new engine, whatever the builds gave. Both slots
have given failures of builds, then what the first success built; an empty slot is built again when
it is needed next; calls that got through go by what the slots hold; rules wait for the grammar; a
schema that is no grammar never builds one; and what starts after a success succeeds. -/
theorem compiled_once {processor : Processor D} {resolver : Inclusion.Resolver}
    {directory : String} {schema : SchemaSource} {phase : Option String} {e : Engine D}
    (h : build processor resolver directory schema phase = .ok e) (requests : Nat → Request)
    (ms : List (Move D)) :
    let s := (start e requests).run ms
    (s.engine.grammar.Gave s.grammars ∧ s.engine.validator.Gave s.validators) ∧
    ((∀ m, e.kind = .grammar → s.engine.grammar.value = none →
        (s.calls m.call).task = .grammar →
          (s.step m).engine.grammar.builds = s.engine.grammar.builds + 1) ∧
      (∀ m g, s.engine.validator.value = none → (s.calls m.call).task = .rules g →
        (s.step m).engine.validator.builds = s.engine.validator.builds + 1)) ∧
    (∀ i, Serves s.engine (s.calls i).task) ∧
    (e.kind = .grammar → s.engine.grammar.value = none → s.engine.validator.builds = 0) ∧
    (e.kind = .assertions → s.engine.grammar.builds = 0) ∧
    (∀ i j p o ns p', (s.calls i).answer? p = some (.ok o) → (s.calls j).task = .grammar →
      2 ≤ ns.countP (·.call = j) → ∃ o', ((s.run ns).calls j).answer? p' = some (.ok o')) := by
  intro s
  obtain ⟨hg, hv⟩ := slots_of_build h
  have lawful : s.Lawful := (lawful_start hg hv requests).run ms
  have hkind : s.engine.kind = e.kind := kind_run (start e requests) ms
  refine ⟨⟨lawful.grammars, lawful.validators⟩, ⟨?_, ?_⟩, lawful.serves, ?_, ?_, ?_⟩
  · intro m hk hnone task
    exact builds_step_grammar (hkind.trans hk) hnone task
  · intro m g hnone task
    exact builds_step_rules hnone task
  · intro hk hnone
    have hgave := lawful.validators
    rw [lawful.ordered (hkind.trans hk) hnone] at hgave
    rw [hgave.eq_empty]
  · intro hk
    have hgave := lawful.grammars
    rw [lawful.ungoverned (hkind.trans hk)] at hgave
    rw [hgave.eq_empty]
  · intro i j p o ns p' ho hj hns
    exact lawful.succeeds ho hj hns p'

/-- A processor that takes every schema for a grammar, and compiles it if there is room. -/
def roomProcessor (room : Bool) : Processor Unit :=
  { Validator.Run.orderProcessor with
    evaluate := fun _ _ source _ => .ok (.boolean (source == "boolean(/xs:schema)"))
    compileGrammar := fun _ => if room then some ⟨[], true⟩ else none }

def emptyGrammar : SchemaSource :=
  ⟨"order.xsd", Utf8.encode "<xs:schema xmlns:xs='http://www.w3.org/2001/XMLSchema'/>"⟩

def roomEngine : Engine Unit where
  processor := roomProcessor false
  resolver := .ofList []
  directory := "/"
  schema := emptyGrammar
  phase := none
  kind := .grammar

/-- There is no room for the first call, and there is for the second. -/
def roomSession : Session Unit :=
  let crowded := roomEngine.host
  let roomy := { crowded with processor := roomProcessor true }
  (start roomEngine fun _ => .prepare).run [⟨0, crowded⟩, ⟨1, roomy⟩, ⟨1, roomy⟩]

/-- A third call succeeds without room. -/
theorem compiled_once_room :
    build (roomProcessor false) (.ofList []) "/" emptyGrammar none = .ok roomEngine ∧
      (roomSession.engine.grammar.builds = 2 ∧ roomSession.engine.validator.builds = 1) ∧
      (roomSession.engine.grammar.Gave roomSession.grammars ∧
        roomSession.engine.validator.Gave roomSession.validators) ∧
      ∃ o, ((roomSession.run [⟨2, roomEngine.host⟩, ⟨2, roomEngine.host⟩]).calls 2).answer?
        roomEngine.processor = some (.ok o) := by
  have hbuild : build (roomProcessor false) (.ofList []) "/" emptyGrammar none =
      .ok roomEngine := by rfl
  obtain ⟨hbuilds, hsecond⟩ :
      (roomSession.engine.grammar.builds = 2 ∧ roomSession.engine.validator.builds = 1) ∧
        ((roomSession.calls 1).answer? roomEngine.processor).any (·.toOption.isSome) = true := by
    decide +kernel
  obtain ⟨r, hr, hisSome⟩ := (Option.any_eq_true _ _).1 hsecond
  obtain ⟨o, rfl⟩ := Sequencing.exists_of_isSome hisSome
  have hthird : (roomSession.calls 2).task = .grammar := by
    have hcalls : roomSession.calls 2 = _ := calls_run_of_ne (by simp)
    rw [hcalls]
    rfl
  obtain ⟨hgave, -, -, -, -, hlater⟩ := compiled_once hbuild (fun _ => .prepare) _
  exact ⟨hbuild, hbuilds, hgave,
    hlater 1 2 roomEngine.processor o _ roomEngine.processor hr hthird (by decide)⟩

end Session

end Engine

end Schematron
