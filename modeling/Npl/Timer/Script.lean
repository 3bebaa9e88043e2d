import Npl.Session.Log
import Npl.Timer.Queue
import Npl.Total

/-!
# Scripted tasks

A script says what a task does: leave a note, fail, use the timer that it was taken from, or let time
pass. Running the tasks of a timer by their scripts shows what the timer does with tasks that take
time, fail, or schedule others.

One worker does the tasks, one after the other. A task that fails is recorded and does not concern
the worker, unless it fails in a way that nobody is to recover from. That ends the worker, and so does
a task that is due too late to be waited for. No other worker takes over then: tasks are accepted as
before, and none is done.

A script is finite, and what it schedules is smaller than itself. So a timer whose tasks are scripts
comes to rest while the clock is not advanced from outside.

## Main definitions

* `Script` — what a task does.
* `Stage` — a timer, a clock, a worker, and what happened.
* `Stage.advance` — lets the clock go on, and does what is due.
-/

namespace Npl

/-- What a task does. -/
inductive Script (τ : Type)
  /-- Leaves a note. -/
  | note (label : String)
  /-- Leaves a note of the keys that are waiting. -/
  | notePending
  /-- Fails. -/
  | fail (cause : Cause)
  /-- Fails in a way that ends the worker. -/
  | abort
  /-- Schedules another task. -/
  | schedule (key : String) (script : Script τ) (delay? : Option τ)
  /-- Lets time pass. -/
  | sleep (time : τ)
  /-- Shuts the timer down. -/
  | shutdown
  /-- Does several things in order, up to the first one that fails. -/
  | sequence (scripts : List (Script τ))
deriving Inhabited

/-- How a task ends. -/
inductive Script.Outcome
  /-- All of it is done. -/
  | done
  /-- It failed. -/
  | failed (cause : Cause)
  /-- It failed in a way that ends the worker. -/
  | aborted
deriving DecidableEq, Repr

/-- What can happen while tasks are done. -/
inductive Stage.Event (τ : Type)
  | note (time : τ) (label : String)
  | pending (keys : List String)
  | record (r : LogRecord)

/-- A timer whose tasks are scripts, the time, what happened so far, and whether the worker ended
although the timer was not shut down. -/
structure Stage (τ : Type) where
  timer : Queue τ (Script τ)
  now : τ
  events : List (Stage.Event τ)
  ended : Bool

/-- The record of a task that failed. -/
def Timer.failure (key : String) (cause : Cause) : LogRecord :=
  .ofFailure "scheduler" ("Scheduled action for '" ++ key ++ "' failed") cause

variable {τ : Type}

/-! ### Size -/

namespace Script

/-- The number of steps that a script has, those of the scripts that it schedules included. -/
def size : Script τ → Nat
  | schedule _ s _ => 1 + s.size
  | sequence ss => 1 + total (ss.map size)
  | note _ | notePending | fail _ | abort | sleep _ | shutdown => 1

end Script

namespace Queue

/-- The number of steps of all tasks in a queue. -/
def size (q : Queue τ (Script τ)) : Nat :=
  total (q.entries.map fun e => e.task.action.size)

/-- Taking a task leaves at least as many steps fewer as it has. -/
theorem size_of_next [LT τ] [DecidableLT τ] [Sub τ] {q q' : Queue τ (Script τ)} {now : τ}
    {e : Entry τ (Script τ)} (h : q.next now = (.run e, q')) :
    q'.size + e.task.action.size ≤ q.size := by
  obtain ⟨-, -, numbers, rest, hfront, rfl, -⟩ := of_next_run h
  have hdrop := total_dropWhile_le (·.cancelled) (fun e => e.task.action.size) q.entries
  rw [hfront, List.map_cons, total_cons] at hdrop
  simp only [size]
  omega

/-- An entry adds the steps that it has. -/
theorem total_enqueue [LT τ] [DecidableLT τ] (f : Entry τ (Script τ) → Nat)
    (e : Entry τ (Script τ)) (entries : List (Entry τ (Script τ))) :
    total ((enqueue e entries).map f) = f e + total (entries.map f) := by
  induction entries with
  | nil => rfl
  | cons first entries ih =>
    rw [enqueue]
    split
    · rfl
    · simp only [List.map_cons, total_cons, ih]
      omega

/-- A new task adds the steps that it has. -/
theorem size_of_schedule [LT τ] [DecidableLT τ] [Add τ] {q q' : Queue τ (Script τ)} {now : τ}
    {key : String} {s : Script τ} {delay? : Option τ}
    (h : q.schedule now key s delay? = some q') : q'.size = s.size + q.size := by
  unfold schedule at h
  split at h
  · simp at h
  · obtain rfl := Option.some.inj h
    have hcancel : ∀ (number? : Option Nat) (entries : List (Entry τ (Script τ))),
        (cancelNumber number? entries).map (fun e => e.task.action.size) =
          entries.map fun e => e.task.action.size := by
      intro number? entries
      simp only [cancelNumber, List.map_map]
      refine List.map_congr_left fun e _ => ?_
      simp only [Function.comp_apply]
      split <;> rfl
    simp only [size, total_enqueue, hcancel]
    rfl

end Queue

/-! ### Running -/

namespace Stage

/-- Notes an event. -/
def tell (g : Stage τ) (e : Event τ) : Stage τ :=
  { g with events := g.events ++ [e] }

/-- Shuts the timer down. -/
def shutdown (g : Stage τ) : Stage τ :=
  { g with timer := g.timer.shutdown }

variable [Add τ] [LT τ] [DecidableLT τ]

/-- Schedules a task, or answers why it cannot be. -/
def schedule (g : Stage τ) (key : String) (s : Script τ) (delay? : Option τ) :
    Stage τ × Option Refusal :=
  match g.timer.schedule g.now key s delay? with
  | some timer => ({ g with timer }, none)
  | none => (g, some .stopped)

mutual

/-- Does what a script says, up to the first failure. -/
def run (g : Stage τ) : Script τ → Stage τ × Script.Outcome
  | .note label => (g.tell (.note g.now label), .done)
  | .notePending => (g.tell (.pending g.timer.pending), .done)
  | .fail cause => (g, .failed cause)
  | .abort => (g, .aborted)
  | .schedule key s delay? =>
    let (g, refusal?) := g.schedule key s delay?
    (g, refusal?.elim .done fun refusal => .failed refusal.cause)
  | .sleep time => ({ g with now := g.now + time }, .done)
  | .shutdown => (g.shutdown, .done)
  | .sequence ss => g.runAll ss

/-- Does what several scripts say, up to the first failure. -/
def runAll (g : Stage τ) : List (Script τ) → Stage τ × Script.Outcome
  | [] => (g, .done)
  | s :: ss =>
    match g.run s with
    | (g, .done) => g.runAll ss
    | (g, outcome) => (g, outcome)

end

mutual

/-- A script adds fewer steps to the timer than it has itself. -/
theorem size_run_lt (g : Stage τ) (s : Script τ) :
    (g.run s).1.timer.size < g.timer.size + s.size := by
  cases s with
  | note | notePending | fail | abort | sleep => simp [run, tell, Script.size]
  | shutdown => simp [run, shutdown, Queue.shutdown, Queue.size, Script.size]
  | schedule key s delay? =>
    simp only [run, schedule, Script.size]
    split
    · next h => have := Queue.size_of_schedule h; simp only; omega
    · simp only; omega
  | sequence ss =>
    have := size_runAll_le g ss
    simp only [run, Script.size]
    omega

/-- Several scripts add no more steps to the timer than they have themselves. -/
theorem size_runAll_le (g : Stage τ) (ss : List (Script τ)) :
    (g.runAll ss).1.timer.size ≤ g.timer.size + total (ss.map Script.size) := by
  cases ss with
  | nil => simp [runAll]
  | cons s ss =>
    have hs := size_run_lt g s
    simp only [runAll, List.map_cons, total_cons]
    split
    · next g' h =>
      have := size_runAll_le g' ss
      simp only [h] at hs
      omega
    · next g' _ h =>
      simp only [h] at hs ⊢
      omega

end

/-- Does a task that was taken. A failure is recorded and goes no further, unless it ends the
worker. -/
def perform (g : Stage τ) (task : Task τ (Script τ)) : Stage τ :=
  match g.run task.action with
  | (g', .done) => g'
  | (g', .failed cause) => g'.tell (.record (Timer.failure task.key cause))
  | (g', .aborted) => { g' with ended := true }

/-- A task adds fewer steps to the timer than it has itself. -/
theorem size_perform_lt (g : Stage τ) (task : Task τ (Script τ)) :
    (g.perform task).timer.size < g.timer.size + task.action.size := by
  have hless := size_run_lt g task.action
  unfold perform
  split
  · next h => simpa only [h] using hless
  · next h => simpa only [h, tell] using hless
  · next h => simpa only [h] using hless

variable [Sub τ]

/-- Does one task after the other until none is due. The answer tells how long there is nothing to do
from there on, if there still is a worker. -/
def settle (g : Stage τ) : Stage τ × Option (Wait τ) :=
  if g.ended then (g, none)
  else
    match _h : g.timer.next g.now with
    | (.wait w, timer) => ({ g with timer }, some w)
    | (.late _, timer) => ({ g with timer, ended := true }, none)
    | (.run e, timer) => (perform { g with timer } e.task).settle
termination_by g.timer.size
decreasing_by
  have hdue := Queue.size_of_next _h
  have hless := size_perform_lt { g with timer } e.task
  simp only at hless
  omega

/-- Lets the given time pass and does what is due then. -/
def advance (g : Stage τ) (time : τ) : Stage τ × Option (Wait τ) :=
  settle { g with now := g.now + time }

end Stage

end Npl
