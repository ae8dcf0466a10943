import Schematron.Proofs.Batch.Isolation

/-!
# Every schedule gives the same results

The invariant is `Pool.Lawful`: the state comes after the first one by work on documents, every
worker has found out what its document finds out alone, the results that have been handed on are
those of the first documents in order, and their reports are saved. One move keeps it, so every list
of moves does. `Pool.movesLeft` goes down with each move, and as long as there is something left to
do there is a next move, so every schedule can be brought to its end, where all results are there.
-/
namespace Schematron.Batch
open FileResult
variable {D : Type} {s t : State D} {plan : Plan D} {inputs : List InputFile} {input : InputFile}

/-- The report of a document is where it is to be saved, if it is. -/
def Saved (s : State D) (plan : Plan D) (t : State D) (input : InputFile) : Prop :=
  ∀ place data, Saves s plan input place data → t.files.find? place = some (.file data)

/-- A task has found out what a document that is validated alone finds out. -/
def Task.Sound (s : State D) (plan : Plan D) (input : InputFile) (duration : Duration)
    (t : State D) : Task D → Prop
  | .grammar => True
  | .rules g => s.engine.needGrammar.1 = .ok g
  | .document g v => s.engine.needGrammar.1 = .ok g ∧ s.engine.needValidator.1 = .ok v
  | .checked o => s.outcomeOf plan input = .ok o
  | .finished r => r = s.resultOf plan input duration ∧ Saved s plan t input

/-- What one step changes of what is shared: what the engine has compiled, and the place of a
report. -/
structure Moved (s : State D) (plan : Plan D) (inputs : List InputFile) (t u : State D) : Prop where
  after : After s plan inputs u
  out : u.streams.out = t.streams.out
  saved : ∀ input ∈ inputs, Saved s plan t input → Saved s plan u input

theorem saved_error {e : EngineError} (h : s.outcomeOf plan input = .error e) :
    Saved s plan t input := by
  intro place data hsave
  obtain ⟨o, _, ho, _⟩ := hsave.completed
  rw [h] at ho
  cases ho

theorem resultOf_error {e : EngineError} (h : s.outcomeOf plan input = .error e)
    (duration : Duration) : s.resultOf plan input duration = .ofError input e duration := by
  rw [resultOf_eq, h]
  rfl

/-- A step that changes the engine only. -/
theorem After.moved_engine (h : After s plan inputs t) {engine : Engine D}
    (hengine : s.engine.Agrees engine) : Moved s plan inputs t { t with engine } :=
  ⟨⟨hengine, h.files⟩, rfl, fun _ _ hsaved => hsaved⟩

theorem After.moved_conclude (h : After s plan inputs t) (hapart : Apart s inputs)
    (hinput : input ∈ inputs) (duration : Duration) {o : Outcome}
    (ho : s.outcomeOf plan input = .ok o) :
    let u := (t.conclude plan.options.saveReports input duration (.ok o)).2
    Moved s plan inputs t u ∧ Saved s plan u input := by
  intro u
  obtain ⟨hengine, hout, hfiles⟩ := h.conclude_snd hapart hinput duration ho
  obtain ⟨hsame, hnone⟩ | ⟨place, data, hsave, hput⟩ := hfiles
  · refine ⟨⟨⟨hengine ▸ h.engine, ?_⟩, hout, ?_⟩, ?_⟩
    · intro p
      rw [hsame]
      exact h.files p
    · intro other _ hsaved p d hd
      rw [hsame]
      exact hsaved p d hd
    · intro p d hd
      exact absurd hd (hnone p d)
  · have hfind (p : Place) : u.files.find? p =
        if p = place then some (.file data) else t.files.find? p := by
      rw [hput]
      exact FileSystem.find?_put _ _ _ _ (FileSystem.ne_nil_of_find?_ne hsave.free)
    have hsaved (other : InputFile) (hother : other ∈ inputs)
        (hbefore : ∀ p d, Saves s plan other p d → p ≠ place → t.files.find? p = some (.file d)) :
        Saved s plan u other := by
      intro p d hd
      rw [hfind]
      split
      · rename_i hp
        subst hp
        rw [hapart.data_unique hother hinput hd hsave]
      · exact hbefore p d hd ‹_›
    refine ⟨⟨⟨hengine ▸ h.engine, ?_⟩, hout, ?_⟩, ?_⟩
    · intro p
      rw [hfind]
      split
      · rename_i hp
        subst hp
        exact .inr ⟨input, hinput, data, hsave, rfl⟩
      · exact h.files p
    · intro other hother hbefore
      exact hsaved other hother fun p d hd _ => hbefore p d hd
    · refine hsaved input hinput fun p d hd hne => ?_
      have hplace := hd.located
      rw [hsave.located, Except.ok.injEq] at hplace
      exact absurd hplace.symm hne

/-- A step finds out what a document that is validated alone finds out. -/
theorem Task.Sound.step (h : After s plan inputs t) (hapart : Apart s inputs)
    (hinput : input ∈ inputs) {duration : Duration} {task : Task D}
    (hsound : task.Sound s plan input duration t) :
    (task.step plan input duration t).1.Sound s plan input duration
        (task.step plan input duration t).2 ∧
      Moved s plan inputs t (task.step plan input duration t).2 := by
  cases task with
  | grammar =>
    have hgrammar := h.engine.grammar
    have hengine := h.engine.needGrammar
    rcases hneed : t.engine.needGrammar with ⟨g, engine⟩
    rw [hneed] at hgrammar hengine
    have hmoved := h.moved_engine hengine
    cases g with
    | error e =>
      have houtcome : s.outcomeOf plan input = .error e := by
        rw [outcomeOf_eq, ← hgrammar]
        rfl
      simp only [Task.step, hneed]
      exact ⟨⟨(resultOf_error houtcome duration).symm, saved_error houtcome⟩, hmoved⟩
    | ok g =>
      simp only [Task.step, hneed]
      exact ⟨hgrammar.symm, hmoved⟩
  | rules g =>
    have hvalidator := h.engine.validator
    have hengine := h.engine.needValidator
    rcases hneed : t.engine.needValidator with ⟨v, engine⟩
    rw [hneed] at hvalidator hengine
    have hmoved := h.moved_engine hengine
    have hgrammar : s.engine.needGrammar.1 = .ok g := hsound
    cases v with
    | error e =>
      have houtcome : s.outcomeOf plan input = .error e := by
        rw [outcomeOf_eq, hgrammar, ← hvalidator]
        rfl
      simp only [Task.step, hneed]
      exact ⟨⟨(resultOf_error houtcome duration).symm, saved_error houtcome⟩, hmoved⟩
    | ok v =>
      simp only [Task.step, hneed]
      exact ⟨⟨hgrammar, hvalidator.symm⟩, hmoved⟩
  | document g v =>
    obtain ⟨hgrammar, hvalidator⟩ := hsound
    have houtcome : s.outcomeOf plan input =
        .ok (Engine.check (t.reading plan.read).engine.processor g v
          (.file input.path.display)) := by
      rw [outcomeOf_eq, hgrammar, hvalidator, h.check hapart hinput]
      rfl
    exact ⟨houtcome, h, rfl, fun _ _ hsaved => hsaved⟩
  | checked o =>
    obtain ⟨hmoved, hsaved⟩ := h.moved_conclude hapart hinput duration hsound
    exact ⟨⟨h.conclude_fst hapart hinput duration hsound, hsaved⟩, hmoved⟩
  | finished r => exact ⟨hsound, h, rfl, fun _ _ hsaved => hsaved⟩

/-- What a task has found out, it still has found out after steps of others. -/
theorem Task.Sound.keep {u : State D} (h : Moved s plan inputs t u) (hinput : input ∈ inputs)
    {duration : Duration} {task : Task D} (hsound : task.Sound s plan input duration t) :
    task.Sound s plan input duration u := by
  cases task with
  | finished r => exact ⟨hsound.1, h.saved input hinput hsound.2⟩
  | _ => exact hsound

def Task.run (plan : Plan D) (input : InputFile) (duration : Duration) :
    Nat → Task D → State D → Task D × State D
  | 0, task, t => (task, t)
  | n + 1, task, t =>
    let (task, t) := task.step plan input duration t
    run plan input duration n task t

theorem Task.Sound.run (h : After s plan inputs t) (hapart : Apart s inputs)
    (hinput : input ∈ inputs) {duration : Duration} {task : Task D}
    (hsound : task.Sound s plan input duration t) (n : Nat) :
    (task.run plan input duration n t).1.Sound s plan input duration
        (task.run plan input duration n t).2 ∧
      After s plan inputs (task.run plan input duration n t).2 := by
  induction n generalizing task t with
  | zero => exact ⟨hsound, h⟩
  | succ n ih =>
    obtain ⟨hstep, hmoved⟩ := hsound.step h hapart hinput
    exact ih hmoved.after hstep

/-- Where the processor parses files as they were in a state, a worker that is left alone does what
`State.validate` does. -/
theorem run_grammar (hread : t.reading plan.read = t) (input : InputFile) (duration : Duration) :
    Task.run plan input duration 4 .grammar t =
      (.finished (t.validate plan.options.saveReports input duration).1,
        (t.validate plan.options.saveReports input duration).2) := by
  have hprocessor : (t.reading plan.read).engine.processor = t.engine.processor := by rw [hread]
  simp only [Task.run, Task.step, State.validate, Engine.validate, Engine.needAll]
  rcases hg : t.engine.needGrammar with ⟨g, e₁⟩
  obtain ⟨slot, rfl⟩ := Engine.needGrammar_frame hg
  cases g with
  | error e => rfl
  | ok g =>
    rcases hv : ({ t.engine with grammar := slot }).needValidator with ⟨v, e₂⟩
    obtain ⟨slot', rfl⟩ := Engine.needValidator_frame hv
    cases v with
    | error e => simp [hv, State.conclude, Except.map]
    | ok v =>
      simp only [hv, Except.map]
      have hsame : (({ t with engine := { t.engine with grammar := slot, validator := slot' } } :
          State D).reading plan.read).engine.processor = t.engine.processor := hprocessor
      rw [hsame]

/-- Where documents are read as they were at the start, one document after the other has the result
that it has alone. -/
theorem After.runFrom (h : After s plan inputs t) (hapart : Apart s inputs)
    (hread : ∀ u : State D, u.engine.processor = s.engine.processor → u.reading plan.read = u)
    {rest : List InputFile} (hrest : ∀ input ∈ rest, input ∈ inputs) (n : Nat) :
    (Batch.runFrom plan.options plan.timings plan.handOn n rest t).1 =
      (rest.zipIdx n).map fun x => s.resultOf plan x.1 (plan.timings.document x.2) := by
  induction rest generalizing t n with
  | nil => rfl
  | cons input rest ih =>
    have hinput := hrest input List.mem_cons_self
    have hgrammar : (Task.grammar : Task D).Sound s plan input (plan.timings.document n) t :=
      trivial
    have hfour := hgrammar.run h hapart hinput 4
    rw [run_grammar (hread t h.engine.processor)] at hfour
    obtain ⟨⟨hresult, -⟩, hafter⟩ := hfour
    have hnext := ih
      (hafter.print (plan.handOn n (s.resultOf plan input (plan.timings.document n))))
      (fun other hother => hrest other (List.mem_cons_of_mem input hother)) (n + 1)
    simp only [Batch.runFrom, List.zipIdx_cons, List.map_cons]
    rw [hresult, hnext]

/-- A batch that is run one document after the other, where documents are read as they were at the
start, gives each document the result that it has alone. -/
theorem files_run (hapart : Apart s inputs) :
    (Batch.run plan.options plan.timings plan.handOn inputs (s.reading plan.read)).1.files =
      inputs.zipIdx.map fun x => s.resultOf plan x.1 (plan.timings.document x.2) := by
  let still : Plan D :=
    { plan with read := fun path _ => plan.read path (s.files.entry s.engine.directory path) }
  have hapart' : Apart (s.reading plan.read) inputs :=
    ⟨hapart.tree, hapart.documents, hapart.reports, hapart.distinct⟩
  have hread (u : State D) (hu : u.engine.processor = (s.reading plan.read).engine.processor) :
      u.reading still.read = u := by
    obtain ⟨engine, files, streams⟩ := u
    obtain ⟨processor, resolver, directory, schema, phase, kind, grammar, validator⟩ := engine
    cases hu
    rfl
  exact (After.refl (s.reading plan.read) still inputs).runFrom hapart' hread (fun _ h => h) 0

namespace Pool

def expected (s : State D) (plan : Plan D) (x : InputFile × Nat) : Nat × FileResult :=
  (x.2, s.resultOf plan x.1 (plan.timings.document x.2))

def outAfter (plan : Plan D) (out : String) (calls : List (Nat × FileResult)) : String :=
  calls.foldl (fun out c => out ++ (plan.handOn c.1 c.2).out) out

/-- What holds of a batch whatever moves have been made. -/
structure Lawful (s : State D) (plan : Plan D) (inputs : List InputFile) (p : Pool D) : Prop where
  after : After s plan inputs p.state
  /-- The documents that have not been handed on are at work or waiting, in order. -/
  queue : p.busy.map (fun w => (w.input, w.index)) ++
      p.waiting.zipIdx (p.handed.length + p.busy.length) = inputs.zipIdx.drop p.handed.length
  sound : ∀ w ∈ p.busy,
    w.task.Sound s plan w.input (plan.timings.document w.index) p.state
  handed : p.handed = (inputs.zipIdx.take p.handed.length).map (expected s plan)
  saved : ∀ x ∈ inputs.zipIdx.take p.handed.length, Saved s plan p.state x.1
  out : p.state.streams.out = outAfter plan s.streams.out p.handed

variable {s : State D} {plan : Plan D} {inputs : List InputFile} {p q : Pool D}

theorem lawful_start (s : State D) (plan : Plan D) (inputs : List InputFile) :
    Lawful s plan inputs ⟨s, inputs, [], []⟩ where
  after := .refl s plan inputs
  queue := by simp
  sound := by simp
  handed := by simp
  saved := by simp
  out := rfl

/-- What is at work is one of the documents. -/
theorem Lawful.input_mem (h : Lawful s plan inputs p) {w : Worker D} (hw : w ∈ p.busy) :
    w.input ∈ inputs := by
  have hmem : (w.input, w.index) ∈ inputs.zipIdx.drop p.handed.length := by
    rw [← h.queue]
    exact List.mem_append_left _ (List.mem_map_of_mem hw)
  exact List.fst_mem_of_mem_zipIdx (List.mem_of_mem_drop hmem)

theorem exists_of_work {position : Nat} (h : p.move? plan (.work position) = some q) :
    ∃ w, p.busy[position]? = some w ∧
      q = { p with
        state := (w.task.step plan w.input (plan.timings.document w.index) p.state).2
        busy := p.busy.set position { w with
          task := (w.task.step plan w.input (plan.timings.document w.index) p.state).1 } } := by
  simp only [move?] at h
  split at h
  · cases h
  · cases h
  · rename_i w hrest hw
    cases h
    exact ⟨w, hw, rfl⟩

theorem exists_of_handOn (h : p.move? plan .handOn = some q) :
    ∃ w r busy, p.busy = w :: busy ∧ w.task = .finished r ∧
      q = { p with
        state := p.state.print (plan.handOn w.index r), busy
        handed := p.handed ++ [(w.index, r)] } := by
  simp only [move?] at h
  split at h
  · rename_i index input r busy hbusy
    cases h
    exact ⟨_, r, busy, hbusy, rfl, rfl⟩
  · cases h

theorem Lawful.step (h : Lawful s plan inputs p) (hapart : Apart s inputs) {m : Move}
    (hm : p.move? plan m = some q) : Lawful s plan inputs q := by
  cases m with
  | start =>
    cases hwaiting : p.waiting with
    | nil => simp [move?, hwaiting] at hm
    | cons input waiting =>
      simp only [move?, hwaiting] at hm
      split at hm
      · cases hm
        refine ⟨h.after, ?_, ?_, h.handed, h.saved, h.out⟩
        · have hqueue := h.queue
          rw [hwaiting, List.zipIdx_cons] at hqueue
          simpa [Nat.add_assoc] using hqueue
        · intro w hw
          rcases List.mem_append.1 hw with hw | hw
          · exact h.sound w hw
          · rw [List.mem_singleton.1 hw]
            trivial
      · cases hm
  | work position =>
    obtain ⟨w, hw, rfl⟩ := exists_of_work hm
    have hmem : w ∈ p.busy := List.mem_of_getElem? hw
    obtain ⟨hsound, hmoved⟩ := (h.sound w hmem).step h.after hapart (h.input_mem hmem)
    have hpositions (f : Worker D → InputFile × Nat) (hf : ∀ task, f { w with task } = f w)
        (task : Task D) : (p.busy.set position { w with task }).map f = p.busy.map f := by
      obtain ⟨hlt, rfl⟩ := List.getElem?_eq_some_iff.1 hw
      rw [List.map_set, hf, ← List.getElem_map f (h := by simpa using hlt), List.set_getElem_self]
    refine ⟨hmoved.after, ?_, ?_, h.handed, ?_, ?_⟩
    · rw [hpositions _ fun _ => rfl, List.length_set]
      exact h.queue
    · intro w' hw'
      rcases List.mem_or_eq_of_mem_set hw' with hw' | rfl
      · exact (h.sound w' hw').keep hmoved (h.input_mem hw')
      · exact hsound
    · intro x hx
      have hinput : x.1 ∈ inputs := List.fst_mem_of_mem_zipIdx (List.mem_of_mem_take hx)
      exact hmoved.saved x.1 hinput (h.saved x hx)
    · exact hmoved.out.trans h.out
  | handOn =>
    obtain ⟨w, r, busy, hbusy, htask, rfl⟩ := exists_of_handOn hm
    have hqueue := h.queue
    rw [hbusy, List.map_cons, List.cons_append] at hqueue
    have hnext : inputs.zipIdx[p.handed.length]? = some (w.input, w.index) := by
      have hhead := congrArg (·[0]?) hqueue
      simpa using hhead.symm
    have htake : inputs.zipIdx.take (p.handed.length + 1) =
        inputs.zipIdx.take p.handed.length ++ [(w.input, w.index)] := by
      rw [List.take_add_one, hnext]
      rfl
    have hsound := h.sound w (by simp [hbusy])
    rw [htask] at hsound
    obtain ⟨hr, hsaved⟩ := hsound
    refine ⟨h.after.print _, ?_, ?_, ?_, ?_, ?_⟩
    · have htail := congrArg List.tail hqueue
      rw [List.tail_cons, List.tail_drop] at htail
      simpa [hbusy, Nat.add_assoc, Nat.add_comm 1] using htail
    · intro w' hw'
      exact h.sound w' (by simp [hbusy, hw'])
    · rw [List.length_append, List.length_singleton, htake, List.map_append, ← h.handed, hr]
      rfl
    · intro x hx
      rw [List.length_append, List.length_singleton, htake] at hx
      rcases List.mem_append.1 hx with hx | hx
      · exact h.saved x hx
      · rw [List.mem_singleton.1 hx]
        exact hsaved
    · rw [outAfter, List.foldl_append, State.print, Streams.out_append, h.out]
      rfl

theorem Lawful.moves (h : Lawful s plan inputs p) (hapart : Apart s inputs) {ms : List Move}
    (hm : p.moves? plan ms = some q) : Lawful s plan inputs q := by
  induction ms generalizing p with
  | nil =>
    cases hm
    exact h
  | cons m ms ih =>
    obtain ⟨p', hp', hq⟩ := Option.bind_eq_some_iff.1 hm
    exact ih (h.step hapart hp') hq

theorem length_busy_moves_le {ms : List Move} (hp : p.busy.length ≤ room plan.options)
    (hm : p.moves? plan ms = some q) : q.busy.length ≤ room plan.options := by
  induction ms generalizing p with
  | nil =>
    cases hm
    exact hp
  | cons m ms ih =>
    obtain ⟨p', hp', hq⟩ := Option.bind_eq_some_iff.1 hm
    exact ih (length_busy_le hp hp') hq

def left : Task D → Nat
  | .grammar => 5
  | .rules _ => 4
  | .document _ _ => 3
  | .checked _ => 2
  | .finished _ => 1

def leftOf : List (Worker D) → Nat
  | [] => 0
  | w :: ws => left w.task + leftOf ws

/-- How many moves are left of a batch, at most. -/
def movesLeft (p : Pool D) : Nat := 6 * p.waiting.length + leftOf p.busy

theorem leftOf_append (ws ws' : List (Worker D)) :
    leftOf (ws ++ ws') = leftOf ws + leftOf ws' := by
  induction ws with
  | nil => simp [leftOf]
  | cons w ws ih => simp [leftOf, ih, Nat.add_assoc]

theorem left_step_lt {input : InputFile} {duration : Duration} {t : State D} {task : Task D}
    (h : ∀ r, task ≠ .finished r) : left (task.step plan input duration t).1 < left task := by
  cases task with
  | grammar =>
    simp only [Task.step]
    split <;> simp [left]
  | rules g =>
    simp only [Task.step]
    split <;> simp [left]
  | document g v => simp [Task.step, left]
  | checked o => simp [Task.step, left]
  | finished r => exact absurd rfl (h r)

/-- Every move uses up one of the moves that are left. -/
theorem movesLeft_lt {m : Move} (h : p.move? plan m = some q) : movesLeft q < movesLeft p := by
  cases m with
  | start =>
    cases hwaiting : p.waiting with
    | nil => simp [move?, hwaiting] at h
    | cons input waiting =>
      simp only [move?, hwaiting] at h
      split at h
      · cases h
        simp [movesLeft, hwaiting, leftOf_append, leftOf, left]
        omega
      · cases h
  | work position =>
    obtain ⟨w, hw, hq⟩ := exists_of_work h
    have hunfinished : ∀ r, w.task ≠ .finished r := by
      intro r hr
      obtain ⟨index, input, task⟩ := w
      cases hr
      simp [move?, hw] at h
    have hless : left (w.task.step plan w.input (plan.timings.document w.index) p.state).1 <
        left w.task := left_step_lt hunfinished
    obtain ⟨hlt, hget⟩ := List.getElem?_eq_some_iff.1 hw
    have hsplit (a : Worker D) : p.busy.set position a =
        p.busy.take position ++ a :: p.busy.drop (position + 1) :=
      List.set_eq_take_append_cons_drop .. |>.trans (if_pos hlt)
    have hself : p.busy = p.busy.take position ++ w :: p.busy.drop (position + 1) := by
      rw [← hsplit, ← hget, List.set_getElem_self]
    have hbefore : leftOf p.busy = leftOf (p.busy.take position) +
        (left w.task + leftOf (p.busy.drop (position + 1))) := by
      conv_lhs => rw [hself]
      rw [leftOf_append, leftOf]
    rw [hq]
    simp only [movesLeft, hsplit, leftOf_append, leftOf, hbefore]
    omega
  | handOn =>
    obtain ⟨w, r, busy, hbusy, htask, rfl⟩ := exists_of_handOn h
    simp [movesLeft, hbusy, htask, leftOf, left]

theorem length_moves_le {ms : List Move} (h : p.moves? plan ms = some q) :
    ms.length + movesLeft q ≤ movesLeft p := by
  induction ms generalizing p with
  | nil =>
    cases h
    simp
  | cons m ms ih =>
    obtain ⟨p', hp', hq⟩ := Option.bind_eq_some_iff.1 h
    have hless := movesLeft_lt hp'
    have hrest := ih hq
    rw [List.length_cons]
    omega

/-- As long as not all results have been handed on, there is a next move. -/
theorem exists_move (plan : Plan D) (h : p.isDone = false) : ∃ m q, p.move? plan m = some q := by
  cases hbusy : p.busy with
  | nil =>
    cases hwaiting : p.waiting with
    | nil => simp [isDone, hbusy, hwaiting] at h
    | cons input waiting =>
      have hroom : p.busy.length < room plan.options := by
        rw [hbusy, List.length_nil, room]
        omega
      exact ⟨.start, Option.isSome_iff_exists.1 (by simp [move?, hwaiting, hroom])⟩
  | cons w busy =>
    obtain ⟨index, input, task⟩ := w
    cases task with
    | finished r => exact ⟨.handOn, Option.isSome_iff_exists.1 (by simp [move?, hbusy])⟩
    | _ => exact ⟨.work 0, Option.isSome_iff_exists.1 (by simp [move?, hbusy])⟩

theorem exists_done (plan : Plan D) (p : Pool D) :
    ∃ ms q, p.moves? plan ms = some q ∧ q.isDone = true := by
  induction hn : movesLeft p using Nat.strongRecOn generalizing p with | _ n ih
  cases hdone : p.isDone with
  | true => exact ⟨[], p, rfl, hdone⟩
  | false =>
    obtain ⟨m, p', hp'⟩ := exists_move plan hdone
    obtain ⟨ms, q, hq, hdone⟩ := ih (movesLeft p') (hn ▸ movesLeft_lt hp') p' rfl
    exact ⟨m :: ms, q, Option.bind_eq_some_iff.2 ⟨p', hp', hq⟩, hdone⟩

theorem movesLeft_start (s : State D) (inputs : List InputFile) :
    movesLeft ⟨s, inputs, [], []⟩ = 6 * inputs.length := by
  simp [movesLeft, leftOf]

theorem verdict_conclude (t : State D) (saveReports : Bool) (input : InputFile)
    (duration : Duration) (o : Outcome) :
    (t.conclude saveReports input duration (.ok o)).1.verdict =
      if o.valid then .valid else .invalid o.errors o.warnings := by
  cases hreport : o.report with
  | none => rw [conclude_of_none (.inr hreport)]; rfl
  | some report =>
  cases saveReports with
  | false => rw [conclude_of_none (.inl rfl)]; rfl
  | true =>
    rw [conclude_of_report rfl hreport]
    cases hwrite : t.files.write t.engine.directory (reportTarget input.path).display
        (Utf8.encode report.render) with
    | ok files => rw [save_of_ok (r := .ofOutcome input o duration) hwrite]; rfl
    | error e =>
      obtain ⟨_, hsave⟩ := save_of_error (r := .ofOutcome input o duration) hwrite
      rw [hsave]
      rfl

/-- Once all results have been handed on, they are those of all documents, in order. -/
theorem Lawful.done (h : Lawful s plan inputs p) (hdone : p.isDone = true) :
    inputs.length ≤ p.handed.length := by
  simp only [isDone, Bool.and_eq_true, List.isEmpty_iff] at hdone
  have hqueue := h.queue
  rw [hdone.1, hdone.2] at hqueue
  simpa using hqueue.symm

/-- A batch does not depend on its schedule. Whatever moves have been made, no more documents are at
work than there is room for, few moves are left, and there is a next one unless all is done. Once
all is done, each document has been handed on once, in order and with its index; its result is the
one that it has alone; what has been written on standard output follows from the results; each report
that is to be saved and can be is where it belongs, and every other place is as it was; and the exit
status says whether all documents are valid. Saving reports has no part in what is said about a
document. -/
theorem schedule_independent (hapart : Apart s inputs) {ms : List Move}
    (hm : (⟨s, inputs, [], []⟩ : Pool D).moves? plan ms = some p) :
    (p.busy.length ≤ room plan.options ∧ ms.length ≤ 6 * inputs.length ∧
      (p.isDone = false → ∃ m q, p.move? plan m = some q)) ∧
    (p.isDone = true →
      p.handed = inputs.zipIdx.map (expected s plan) ∧
      p.state.streams.out = outAfter plan s.streams.out p.handed ∧
      (∀ input ∈ inputs, ∀ place data, Saves s plan input place data →
        p.state.files.find? place = some (.file data)) ∧
      (∀ place, (∀ input ∈ inputs, ∀ data, ¬ Saves s plan input place data) →
        p.state.files.find? place = s.files.find? place) ∧
      ∀ whole, (BatchResults.mk (p.handed.map (·.2)) whole).exitCode = 0 ↔
        ∀ c ∈ p.handed, c.2.verdict = .valid) ∧
    ∀ input ∈ inputs, ∀ duration o, s.outcomeOf plan input = .ok o →
      (s.resultOf plan input duration).verdict =
        if o.valid then .valid else .invalid o.errors o.warnings := by
  have hlawful := (lawful_start s plan inputs).moves hapart hm
  refine ⟨⟨length_busy_moves_le (Nat.zero_le _) hm, ?_, exists_move plan⟩, fun hdone => ?_, ?_⟩
  · have hlength := length_moves_le hm
    rw [movesLeft_start] at hlength
    omega
  · have hall := hlawful.done hdone
    have htake : inputs.zipIdx.take p.handed.length = inputs.zipIdx :=
      List.take_of_length_le (by simpa using hall)
    refine ⟨htake ▸ hlawful.handed, hlawful.out, fun input hinput => ?_, fun place hplace => ?_,
      fun whole => ?_⟩
    · obtain ⟨n, hn⟩ := List.mem_iff_getElem?.1 hinput
      have hmem : (input, n) ∈ inputs.zipIdx.take p.handed.length := by
        rw [htake]
        exact List.mem_zipIdx_iff_getElem?.2 hn
      exact hlawful.saved (input, n) hmem
    · obtain hsame | ⟨input, hinput, data, hsave, _⟩ := hlawful.after.files place
      · exact hsame
      · exact absurd hsave (hplace input hinput data)
    · rw [BatchResults.exitCode_eq_zero_iff, List.forall_mem_map]
  · intro input _ duration o ho
    rw [resultOf_eq, ho]
    exact verdict_conclude ..

/-- Two documents in the root directory, and what else is there. -/
def pairState (more : List (Place × FileEntry)) : State Unit where
  engine := {
    processor := Validator.Run.orderProcessor
    resolver := .ofList []
    directory := "/"
    schema := ⟨"/s.sch", Utf8.encode
      "<s:schema xmlns:s='http://purl.oclc.org/dsdl/schematron'><s:pattern id='p'/></s:schema>"⟩
    phase := none
    kind := .assertions }
  files := ⟨[(["a.xml"], .file []), (["b.xml"], .file [])] ++ more⟩

def pairInputs : List InputFile := [⟨.ofText "a.xml", 0⟩, ⟨.ofText "b.xml", 0⟩]

def pairPlan : Plan Unit where
  read := fun _ _ => ⟨[], some ()⟩
  options := { threads := 2, saveReports := true }
  handOn := fun _ _ => {}

def pairReport (input : InputFile) : Report :=
  ((pairState []).outcomeOf pairPlan input).toOption.bind (·.report) |>.getD default

theorem outcomeOf_pair (more : List (Place × FileEntry)) {input : InputFile}
    (h : input ∈ pairInputs) : ∃ o, (pairState more).outcomeOf pairPlan input = .ok o ∧
      o.report = some (pairReport input) := by
  have hall : ∀ input ∈ pairInputs, (((pairState []).outcomeOf pairPlan input).toOption.any
      fun o => o.report.isSome) = true := by decide +kernel
  obtain ⟨o, ho, hreport⟩ := Sequencing.exists_of_any (hall input h)
  refine ⟨o, ho, ?_⟩
  obtain ⟨report, hr⟩ := Option.isSome_iff_exists.1 hreport
  rw [pairReport, ho]
  simp [Except.toOption, hr]

theorem locate_pair {more : List (Place × FileEntry)} {path : FilePath} (name : String)
    (hname : path.display = name) (hroot : FileSystem.isRootName name = true)
    (hlink : ((pairState more).files.find? [name]).any FileEntry.isLink = false) :
    (pairState more).files.locate (pairState more).engine.directory path.display = .ok [name] := by
  rw [hname]
  exact FileSystem.locate_rootName hroot hlink

theorem apart_pair : Apart (pairState []) pairInputs := by
  have ha : (pairState []).reportPlace ⟨.ofText "a.xml", 0⟩ = .ok ["a.xml.svrl"] :=
    locate_pair _ (by decide +kernel) (by decide +kernel) (by decide +kernel)
  have hb : (pairState []).reportPlace ⟨.ofText "b.xml", 0⟩ = .ok ["b.xml.svrl"] :=
    locate_pair _ (by decide +kernel) (by decide +kernel) (by decide +kernel)
  constructor
  · exact FileSystem.isTree_of_entries (by decide +kernel)
  · simp only [pairInputs, List.forall_mem_cons, ha, hb]
    refine ⟨⟨["a.xml"], ?_⟩, ⟨["b.xml"], ?_⟩, by simp⟩
    · exact ⟨locate_pair _ (by decide +kernel) (by decide +kernel) (by decide +kernel), by simp⟩
    · exact ⟨locate_pair _ (by decide +kernel) (by decide +kernel) (by decide +kernel), by simp⟩
  · simp [pairInputs, ha, hb]
  · simp only [pairInputs, List.forall_mem_cons, ha, hb]
    simp +contextual

/-- Two workers validate the two documents in some order. -/
theorem schedule_independent_pair :
    Apart (pairState []) pairInputs ∧ ∃ ms p,
      (⟨pairState [], pairInputs, [], []⟩ : Pool Unit).moves? pairPlan ms = some p ∧
        p.isDone = true ∧ p.handed = pairInputs.zipIdx.map (expected (pairState []) pairPlan) := by
  obtain ⟨ms, p, hm, hdone⟩ := exists_done pairPlan ⟨pairState [], pairInputs, [], []⟩
  exact ⟨apart_pair, ms, p, hm, hdone, ((schedule_independent apart_pair hm).2.1 hdone).1⟩

/-- The report of the second document is to be saved by way of a link to that of the first one. -/
def linkedState : State Unit := pairState [(["b.xml.svrl"], .link "a.xml.svrl")]

theorem saves_linked {input : InputFile} (h : input ∈ pairInputs) :
    Saves linkedState pairPlan input ["a.xml.svrl"] (Utf8.encode (pairReport input).render) := by
  have htarget : FileSystem.isRootName "a.xml.svrl" = true ∧
      (linkedState.files.find? ["a.xml.svrl"]).any FileEntry.isLink = false := by decide +kernel
  have hplace : linkedState.reportPlace input = .ok ["a.xml.svrl"] := by
    simp only [pairInputs, List.mem_cons, List.not_mem_nil, or_false] at h
    rcases h with rfl | rfl
    · exact locate_pair _ (by decide +kernel) htarget.1 htarget.2
    · have hdisplay : (reportTarget (.ofText "b.xml")).display = "b.xml.svrl" := by decide +kernel
      rw [State.reportPlace, hdisplay]
      exact FileSystem.locate_rootLink (by decide +kernel) (by decide +kernel) htarget.1 htarget.2
  obtain ⟨o, ho, hreport⟩ := outcomeOf_pair [(["b.xml.svrl"], .link "a.xml.svrl")] h
  exact ⟨rfl, ⟨o, _, ho, hreport, rfl⟩, hplace, by decide +kernel⟩

/-- It is not enough that no report is saved where a document is: where the reports of two documents
are saved at one place, only one of them is there in the end. -/
theorem not_forall_schedule_independent :
    ¬ ∀ (s : State Unit) (plan : Plan Unit) (inputs : List InputFile) (ms : List Move)
      (p : Pool Unit), s.files.IsTree →
      (∀ a ∈ inputs, ∃ place data,
        s.files.locate s.engine.directory a.path.display = .ok place ∧
          s.files.find? place = some (.file data) ∧
          (∀ b ∈ inputs, s.files.locate s.engine.directory b.path.display = .ok place →
            b.path = a.path) ∧
          ∀ b ∈ inputs, s.reportPlace b ≠ .ok place) →
      (⟨s, inputs, [], []⟩ : Pool Unit).moves? plan ms = some p → p.isDone = true →
      ∀ input ∈ inputs, ∀ place data, Saves s plan input place data →
        p.state.files.find? place = some (.file data) := by
  intro h
  obtain ⟨ms, p, hm, hdone⟩ := exists_done pairPlan ⟨linkedState, pairInputs, [], []⟩
  have hsaved := h linkedState pairPlan pairInputs ms p
    (FileSystem.isTree_of_entries (by decide +kernel)) ?_ hm hdone
  · have ha : (⟨.ofText "a.xml", 0⟩ : InputFile) ∈ pairInputs := by decide
    have hb : (⟨.ofText "b.xml", 0⟩ : InputFile) ∈ pairInputs := by decide
    have hfirst := hsaved _ ha _ _ (saves_linked ha)
    have hsecond := hsaved _ hb _ _ (saves_linked hb)
    rw [hfirst, Option.some.injEq, FileEntry.file.injEq] at hsecond
    have hrender := Utf8.encode_injective hsecond
    revert hrender
    decide +kernel
  · have hplace : ∀ input ∈ pairInputs, linkedState.reportPlace input = .ok ["a.xml.svrl"] :=
      fun input hinput => (saves_linked hinput).located
    have hfirst : linkedState.files.locate linkedState.engine.directory
        (FilePath.ofText "a.xml").display = .ok ["a.xml"] :=
      locate_pair _ (by decide +kernel) (by decide +kernel) (by decide +kernel)
    have hsecond : linkedState.files.locate linkedState.engine.directory
        (FilePath.ofText "b.xml").display = .ok ["b.xml"] :=
      locate_pair _ (by decide +kernel) (by decide +kernel) (by decide +kernel)
    have hreports (name : String) (hname : ["a.xml.svrl"] ≠ [name]) :
        ∀ b ∈ pairInputs, linkedState.reportPlace b ≠ .ok [name] := by
      intro b hb
      rw [hplace b hb]
      simpa using hname
    have hpair {P : InputFile → Prop} : (∀ x ∈ pairInputs, P x) ↔
        P ⟨.ofText "a.xml", 0⟩ ∧ P ⟨.ofText "b.xml", 0⟩ := by simp [pairInputs]
    rw [hpair]
    refine ⟨⟨["a.xml"], [], hfirst, rfl, ?_, hreports _ (by decide)⟩,
      ⟨["b.xml"], [], hsecond, rfl, ?_, hreports _ (by decide)⟩⟩
    · rw [hpair, hsecond]
      simp
    · rw [hpair, hfirst]
      simp

end Pool

end Schematron.Batch
