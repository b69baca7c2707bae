import Delegation.Index.Build
import Delegation.Proofs.Sequence
import Mathlib

/-!
# Tasks in turn and side by side

There are two ways to work off a list of tasks, each of which writes notes and has a result or
fails.  `inTurn` does one task after another and stops at the first failure.  A `Pool` has a
worker for each task, all of which write to one journal; in a `Pool.Step` any one of them writes
its next note or, after the last one, hands over its result.  The results are collected by the
places of the tasks, in whatever order they are handed over.

A step moves a note from a worker to the journal and changes nothing else that matters
(`Pool.Step.serves`).  So every run of a pool ends with the result of each task in its place and
all notes in the journal (`ends_of_run`); and every run can be continued to an end
(`exists_ends`).
-/

namespace Delegation

open Sequence Relation

variable {α β γ ε : Type}

/-! ## In turn -/

/-- Does tasks one after another up to the first failure: the results, and the notes. -/
def inTurn (run : α → Except ε γ) (notes : α → List Note) :
    List α → Except ε (List γ) × List Note
  | [] => (.ok [], [])
  | task :: tasks =>
    match run task with
    | .error e => (.error e, notes task)
    | .ok result =>
      let rest := inTurn run notes tasks
      (rest.1.map (result :: ·), notes task ++ rest.2)

/-- The results are those of a traversal, and the notes those of the tasks that it reaches. -/
theorem inTurn_eq (run : α → Except ε γ) (notes : α → List Note) (tasks : List α) :
    inTurn run notes tasks =
      (tasks.mapM run,
        (Build.throughFirst (fun task => !(run task).isOk) tasks).flatMap notes) := by
  induction tasks with
  | nil => rfl
  | cons task tasks ih =>
    rw [inTurn, Build.throughFirst]
    cases hrun : run task with
    | error e =>
      rw [mapM_cons_of_error tasks hrun]
      simp [Except.isOk, Except.toBool]
    | ok result =>
      rw [mapM_cons_of_ok tasks hrun, ih]
      simp [Except.isOk, Except.toBool]

/-! ## Side by side -/

/-- A worker with a task: it has notes still to write, or has handed over its result. -/
inductive Worker (α β : Type) where
  | busy (task : α) (pending : List Note)
  | done (result : β)

/-- Workers by the places of their tasks, and the journal that all of them write to. -/
structure Pool (α β : Type) where
  workers : List (Worker α β)
  journal : List Note

namespace Worker

/-- The notes that a worker has still to write. -/
def pending : Worker α β → List Note
  | busy _ notes => notes
  | done _ => []

/-- How many steps a worker has still to do. -/
def stepsLeft : Worker α β → Nat
  | busy _ notes => notes.length + 1
  | done _ => 0

/-- A worker writes its next note, or hands over the result when there are no more. -/
inductive Step (run : α → β) : Worker α β → List Note → Worker α β → Prop where
  | write (task : α) (note : Note) (pending : List Note) :
      Step run (busy task (note :: pending)) [note] (busy task pending)
  | finish (task : α) : Step run (busy task []) [] (done (run task))

/-- A worker is at the task, or has its result. -/
inductive Serves (run : α → β) : α → Worker α β → Prop where
  | busy (task : α) (pending : List Note) : Serves run task (busy task pending)
  | done (task : α) : Serves run task (done (run task))

variable {run : α → β} {w w' : Worker α β} {task : α} {written : List Note}

lemma Step.serves (h : Step run w written w') (hw : Serves run task w) : Serves run task w' := by
  cases h with
  | write => cases hw; exact .busy _ _
  | finish => cases hw; exact .done _

lemma Step.pending_eq (h : Step run w written w') : w.pending = written ++ w'.pending := by
  cases h <;> rfl

lemma Step.stepsLeft_eq (h : Step run w written w') : w.stepsLeft = w'.stepsLeft + 1 := by
  cases h <;> rfl

/-- A worker that has not handed over its result can do a step. -/
lemma exists_step_or_eq_done (run : α → β) (w : Worker α β) :
    (∃ written w', Step run w written w') ∨ ∃ result, w = done result := by
  match w with
  | busy task [] => exact .inl ⟨_, _, .finish task⟩
  | busy task (note :: pending) => exact .inl ⟨_, _, .write task note pending⟩
  | done result => exact .inr ⟨result, rfl⟩

end Worker

namespace Pool

/-- Nobody has done anything. -/
def start (notes : α → List Note) (tasks : List α) : Pool α β :=
  ⟨tasks.map fun task => .busy task (notes task), []⟩

/-- One worker does a step. -/
inductive Step (run : α → β) : Pool α β → Pool α β → Prop where
  | worker (before after : List (Worker α β)) (journal : List Note) {w w' : Worker α β}
      {written : List Note} (h : w.Step run written w') :
      Step run ⟨before ++ w :: after, journal⟩ ⟨before ++ w' :: after, journal ++ written⟩

/-- All results have been handed over. -/
def Ends (p : Pool α β) (results : List β) : Prop := p.workers = results.map .done

/-- How many steps a pool has still to do. -/
def stepsLeft (p : Pool α β) : Nat := (p.workers.map Worker.stepsLeft).sum

/-- Each worker serves its task, and each note has been written or is still to be. -/
structure Serves (run : α → β) (notes : α → List Note) (tasks : List α) (p : Pool α β) : Prop where
  workers : List.Forall₂ (Worker.Serves run) tasks p.workers
  notes_perm : (p.journal ++ p.workers.flatMap Worker.pending).Perm (tasks.flatMap notes)

section Run

variable {run : α → β} {notes : α → List Note} {tasks : List α} {p q : Pool α β}

lemma serves_start (run : α → β) (notes : α → List Note) (tasks : List α) :
    Serves run notes tasks (start notes tasks) where
  workers := by
    rw [start, List.forall₂_map_right_iff, List.forall₂_same]
    exact fun task _ => .busy task _
  notes_perm := by
    rw [start, List.nil_append, List.flatMap_map]
    exact .refl _

lemma forall₂_replace {R : α → Worker α β → Prop} {before after : List (Worker α β)}
    {w w' : Worker α β} (hw : ∀ task, R task w → R task w')
    (h : List.Forall₂ R tasks (before ++ w :: after)) :
    List.Forall₂ R tasks (before ++ w' :: after) := by
  induction before generalizing tasks with
  | nil =>
    cases h with
    | cons htask hrest => exact .cons (hw _ htask) hrest
  | cons v before ih =>
    cases h with
    | cons htask hrest => exact .cons htask (ih hrest)

/-- A step keeps the workers at their tasks and all notes. -/
theorem Step.serves (h : Step run p q) (hp : Serves run notes tasks p) :
    Serves run notes tasks q := by
  obtain ⟨hworkers, hnotes⟩ := hp
  cases h with
  | worker before after journal hw =>
    refine ⟨forall₂_replace (fun _ => hw.serves) hworkers, List.Perm.trans ?_ hnotes⟩
    simp only [List.flatMap_append, List.flatMap_cons, hw.pending_eq, List.append_assoc]
    exact (List.perm_append_comm_assoc ..).append_left journal

/-- A run keeps the workers at their tasks and all notes. -/
theorem serves_of_run (h : ReflTransGen (Step run) (start notes tasks) p) :
    Serves run notes tasks p := by
  induction h with
  | refl => exact serves_start run notes tasks
  | tail _ hstep ih => exact hstep.serves ih

/-- A run that ends has each result in its place and has written all notes. -/
theorem ends_of_run {results : List β} (h : ReflTransGen (Step run) (start notes tasks) p)
    (hp : p.Ends results) : results = tasks.map run ∧ p.journal.Perm (tasks.flatMap notes) := by
  obtain ⟨hworkers, hnotes⟩ := serves_of_run h
  rw [hp] at hworkers hnotes
  constructor
  · clear hp hnotes h
    rw [List.forall₂_map_right_iff] at hworkers
    induction hworkers with
    | nil => rfl
    | cons htask _ ih =>
      cases htask
      rw [ih, List.map_cons]
  · have hpending : (results.map (Worker.done (α := α))).flatMap Worker.pending = [] := by
      simp [Worker.pending]
    rwa [hpending, List.append_nil] at hnotes

/-! ### Runs end -/

/-- Each step is one less to do. -/
theorem Step.stepsLeft_eq (h : Step run p q) : p.stepsLeft = q.stepsLeft + 1 := by
  cases h with
  | worker before after journal hw =>
    simp only [stepsLeft, List.map_append, List.map_cons, List.sum_append, List.sum_cons,
      hw.stepsLeft_eq]
    omega

/-- A pool in which nobody can do a step has all results. -/
lemma exists_step_or_ends (run : α → β) (p : Pool α β) :
    (∃ q, Step run p q) ∨ ∃ results, p.Ends results := by
  obtain ⟨workers, journal⟩ := p
  induction workers with
  | nil => exact .inr ⟨[], rfl⟩
  | cons w workers ih =>
    rcases w.exists_step_or_eq_done run with ⟨written, w', hw⟩ | ⟨result, rfl⟩
    · exact .inl ⟨_, .worker [] workers journal hw⟩
    · rcases ih with ⟨q, hq⟩ | ⟨results, hends⟩
      · cases hq with
        | worker before after _ hw =>
          exact .inl ⟨_, .worker (.done result :: before) after journal hw⟩
      · exact .inr ⟨result :: results, List.cons_eq_cons.mpr ⟨rfl, hends⟩⟩

/-- From any pool there is a run to an end. -/
theorem exists_ends (run : α → β) (p : Pool α β) :
    ∃ q results, ReflTransGen (Step run) p q ∧ q.Ends results := by
  rcases exists_step_or_ends run p with ⟨q, hq⟩ | ⟨results, hp⟩
  · have hless := hq.stepsLeft_eq
    obtain ⟨q', results, hrun, hends⟩ := exists_ends run q
    exact ⟨q', results, .head hq hrun, hends⟩
  · exact ⟨p, results, .refl, hp⟩
termination_by p.stepsLeft
decreasing_by omega

/-- One worker may do all of its steps while the others wait. -/
lemma run_alone (run : α → β) (before after : List (Worker α β)) (task : α) (pending : List Note)
    (journal : List Note) :
    ReflTransGen (Step run) ⟨before ++ .busy task pending :: after, journal⟩
      ⟨before ++ .done (run task) :: after, journal ++ pending⟩ := by
  induction pending generalizing journal with
  | nil => exact .single (.worker before after journal (.finish task))
  | cons note pending ih =>
    have hrest := ih (journal ++ [note])
    rw [List.append_assoc, List.singleton_append] at hrest
    exact .head (.worker before after journal (.write task note pending)) hrest

end Run

end Pool

end Delegation
