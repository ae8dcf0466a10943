import Schematron.Batch.Run

/-!
# Schedules

How workers share a batch. A document starts when there is room for it, its worker then takes one
step after another, and its result is handed on once it has become the oldest one. Between the steps
of one worker others may take theirs, so a schedule is any list of moves; `Pool.move?` says which
moves there are. A document is read as its file is at that time, which the reports that other
workers save may change.
-/
namespace Schematron.Batch
variable {D : Type}

/-- What a processor makes of the file with a path, by what the path leads to at the time. -/
abbrev Reader (D : Type) := (path : String) → Except FileError FileEntry → Parsed D

/-- How the documents of a batch are read and what is done with them. -/
structure Plan (D : Type) where
  read : Reader D
  options : Options
  timings : Timings := {}
  /-- What is written after each document. -/
  handOn : Nat → FileResult → Streams

namespace State

/-- The state, where the processor finds the files as they are now. -/
def reading (s : State D) (read : Reader D) : State D :=
  { s with
    engine := s.engine.readingWith fun path => read path (s.files.entry s.engine.directory path) }

end State

/-- How far the work on a document is. A step is one use of what is shared. -/
inductive Task (D : Type) where
  /-- The grammar is needed next. -/
  | grammar
  /-- The validator is needed next. -/
  | rules (g : Option (Grammar D))
  /-- The document is checked next. -/
  | document (g : Option (Grammar D)) (v : Validator)
  /-- The document has been checked; if its report is to be saved, this is done next. -/
  | checked (outcome : Outcome)
  | finished (result : FileResult)

namespace Task

def step (plan : Plan D) (input : InputFile) (duration : Duration) (t : Task D) (s : State D) :
    Task D × State D :=
  match t with
  | .grammar =>
    match s.engine.needGrammar with
    | (.error e, engine) => (.finished (.ofError input e duration), { s with engine })
    | (.ok g, engine) => (.rules g, { s with engine })
  | .rules g =>
    match s.engine.needValidator with
    | (.error e, engine) => (.finished (.ofError input e duration), { s with engine })
    | (.ok v, engine) => (.document g v, { s with engine })
  | .document g v =>
    (.checked (Engine.check (s.reading plan.read).engine.processor g v (.file input.path.display)), s)
  | .checked outcome =>
    let (r, s) := s.conclude plan.options.saveReports input duration (.ok outcome)
    (.finished r, s)
  | .finished r => (.finished r, s)

end Task

/-- A worker and the document that it is at. -/
structure Worker (D : Type) where
  index : Nat
  input : InputFile
  task : Task D := .grammar

/-- A batch that is being run. -/
structure Pool (D : Type) where
  state : State D
  /-- The documents that have not started. -/
  waiting : List InputFile
  /-- The workers whose results have not been handed on, in the order of their documents. -/
  busy : List (Worker D) := []
  /-- The results that have been handed on, each with the index that was given with it. -/
  handed : List (Nat × FileResult) := []

/-- What can happen next in a batch. -/
inductive Move where
  /-- The next document starts. -/
  | start
  /-- The worker at a position takes a step. -/
  | work (position : Nat)
  /-- The result of the oldest document is handed on. -/
  | handOn
  deriving DecidableEq, Repr, Inhabited

namespace Pool

/-- How many documents may have started without being handed on. -/
def room (options : Options) : Nat := max options.threads 1

/-- The batch after a move, if there is such a move. -/
def move? (plan : Plan D) (p : Pool D) : Move → Option (Pool D)
  | .start =>
    match p.waiting with
    | [] => none
    | input :: waiting =>
      if p.busy.length < room plan.options then
        let index := p.handed.length + p.busy.length
        some { p with waiting, busy := p.busy ++ [⟨index, input, .grammar⟩] }
      else none
  | .work position =>
    match p.busy[position]? with
    | none | some ⟨_, _, .finished _⟩ => none
    | some w =>
      let (task, state) := w.task.step plan w.input (plan.timings.document w.index) p.state
      some { p with state, busy := p.busy.set position { w with task } }
  | .handOn =>
    match p.busy with
    | ⟨index, _, .finished r⟩ :: busy =>
      some { p with
        state := p.state.print (plan.handOn index r), busy, handed := p.handed ++ [(index, r)] }
    | _ => none

/-- The batch after moves, if there are such moves. -/
def moves? (plan : Plan D) (p : Pool D) (moves : List Move) : Option (Pool D) :=
  moves.foldlM (move? plan) p

/-- Whether every result has been handed on. -/
def isDone (p : Pool D) : Bool := p.waiting.isEmpty && p.busy.isEmpty

/-- There is never more at work than there is room for. -/
theorem length_busy_le {plan : Plan D} {p q : Pool D} {m : Move}
    (hp : p.busy.length ≤ room plan.options) (h : p.move? plan m = some q) :
    q.busy.length ≤ room plan.options := by
  cases m with
  | start =>
    simp only [move?] at h
    split at h
    · cases h
    · split at h
      · cases h
        simpa using ‹_›
      · cases h
  | work position =>
    simp only [move?] at h
    split at h
    · cases h
    · cases h
    · cases h
      simpa using hp
  | handOn =>
    simp only [move?] at h
    split at h
    · rename_i hb
      cases h
      rw [hb, List.length_cons] at hp
      exact Nat.le_of_succ_le hp
    · cases h

end Pool

end Schematron.Batch
