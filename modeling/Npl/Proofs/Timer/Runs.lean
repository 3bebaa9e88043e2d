import Npl.Proofs.Timer.Law
import Npl.Timer.Script

/-!
# Runs of tasks

While the tasks of a timer are done, they use the timer themselves. All that is asked of the timer,
from outside or by a task, is one run of calls, to which the law of a queue applies.

## Main definitions

* `Stage.Input`, `Stage.followAll` — what comes from outside, and what becomes of a stage.
* `Stage.history` — the calls of the timer while a stage follows its inputs.

## Main results

* `Stage.timer_followAll` — the timer after a run is the timer after its calls.
* `Stage.failsAlone` — a task that fails only leaves a record.
-/

namespace Npl.Stage

open Queue (Call)

variable {τ : Type} [LinearOrder τ] [Add τ]

/-! ### The calls of a task -/

mutual

/-- What a script asks of the timer. -/
def calls (g : Stage τ) : Script τ → List (Call τ (Script τ))
  | .schedule key s delay? => [.schedule g.now key s delay?]
  | .shutdown => [.shutdown]
  | .abort => [.abort]
  | .sequence ss => g.callsAll ss
  | .note _ | .notePending | .fail _ | .sleep _ => []

/-- What several scripts ask of the timer, up to the first failure. -/
def callsAll (g : Stage τ) : List (Script τ) → List (Call τ (Script τ))
  | [] => []
  | s :: ss =>
    g.calls s ++
      match g.run s with
      | (g', .done) => g'.callsAll ss
      | _ => []

end

theorem timer_schedule [Sub τ] (g : Stage τ) (key : String) (s : Script τ) (delay? : Option τ) :
    (g.schedule key s delay?).1.timer = g.timer.after [.schedule g.now key s delay?] := by
  simp only [schedule, Queue.after, List.foldl_cons, List.foldl_nil, Call.apply]
  cases g.timer.schedule g.now key s delay? <;> rfl

mutual

/-- A script changes the timer by its calls only. -/
theorem timer_run [Sub τ] (g : Stage τ) (s : Script τ) :
    (g.run s).1.timer = g.timer.after (g.calls s) := by
  cases s with
  | note | notePending | fail | sleep => rfl
  | shutdown | abort => rfl
  | schedule key s delay? => exact timer_schedule g key s delay?
  | sequence ss =>
      simp only [run, calls]
      exact timer_runAll g ss

/-- Several scripts change the timer by their calls only. -/
theorem timer_runAll [Sub τ] (g : Stage τ) (ss : List (Script τ)) :
    (g.runAll ss).1.timer = g.timer.after (g.callsAll ss) := by
  cases ss with
  | nil => rfl
  | cons s ss =>
      have hs := timer_run g s
      simp only [runAll, callsAll]
      obtain ⟨g', outcome, hrun⟩ : ∃ g' outcome, g.run s = (g', outcome) := ⟨_, _, rfl⟩
      rw [hrun] at hs ⊢
      rw [Queue.after_append, ← hs]
      cases outcome with
      | done => exact timer_runAll g' ss
      | failed cause => rfl
      | aborted => rfl

end

theorem timer_perform [Sub τ] (g : Stage τ) (task : Task τ (Script τ)) :
    (g.perform task).timer = g.timer.after (g.calls task.action) := by
  rw [← timer_run]
  unfold perform
  split
  · next h => rw [h]
  · next h => rw [h]; rfl
  · next h => rw [h]

/-! ### The calls of a run -/

variable [Sub τ]

/-- What is asked of the timer while one task after the other is done: the next task is taken, the
task uses the timer, and so on until no task is due. Without a worker nothing is asked. -/
def settleCalls (g : Stage τ) : List (Call τ (Script τ)) :=
  if g.ended then []
  else
    .take g.now ::
      match _h : g.timer.next g.now with
      | (.wait _, _) | (.late _, _) => []
      | (.run e, timer) =>
        calls { g with timer } e.task.action ++ settleCalls (perform { g with timer } e.task)
termination_by g.timer.size
decreasing_by
  have hdue := Queue.size_of_next _h
  have hless := size_perform_lt { g with timer } e.task
  simp only at hless
  omega

section

variable {g : Stage τ} {timer : Queue τ (Script τ)}

/-- There is no worker: the timer is not asked. -/
theorem settle_of_ended (h : g.ended = true) : g.settle = (g, none) ∧ g.settleCalls = [] := by
  rw [settle, settleCalls, if_pos h, if_pos h]
  exact ⟨rfl, rfl⟩

/-- Nothing is due: the timer is asked once. -/
theorem settle_of_wait {w : Wait τ} (hworks : g.ended = false)
    (h : g.timer.next g.now = (.wait w, timer)) :
    g.settle = ({ g with timer }, some w) ∧ g.settleCalls = [.take g.now] := by
  rw [settle, settleCalls, if_neg (by simp [hworks]), if_neg (by simp [hworks])]
  constructor
  · split
    · next h' => cases h.symm.trans h'; rfl
    · next h' => cases h.symm.trans h'
    · next h' => cases h.symm.trans h'
  · split
    · rfl
    · rfl
    · next h' => cases h.symm.trans h'

/-- The next task is due too late: the timer is asked once. -/
theorem settle_of_late {time : τ} (hworks : g.ended = false)
    (h : g.timer.next g.now = (.late time, timer)) :
    g.settle = ({ g with timer, ended := true }, none) ∧ g.settleCalls = [.take g.now] := by
  rw [settle, settleCalls, if_neg (by simp [hworks]), if_neg (by simp [hworks])]
  constructor
  · split
    · next h' => cases h.symm.trans h'
    · next h' => cases h.symm.trans h'; rfl
    · next h' => cases h.symm.trans h'
  · split
    · rfl
    · rfl
    · next h' => cases h.symm.trans h'

/-- A task is due: it is done, and what is due then. -/
theorem settle_of_run {e : Queue.Entry τ (Script τ)} (hworks : g.ended = false)
    (h : g.timer.next g.now = (.run e, timer)) :
    g.settle = (perform { g with timer } e.task).settle ∧
      g.settleCalls = .take g.now :: (calls { g with timer } e.task.action ++
        settleCalls (perform { g with timer } e.task)) := by
  rw [settle, settleCalls, if_neg (by simp [hworks]), if_neg (by simp [hworks])]
  constructor
  · split
    · next h' => cases h.symm.trans h'
    · next h' => cases h.symm.trans h'
    · next h' => cases h.symm.trans h'; rfl
  · split
    · next h' => cases h.symm.trans h'
    · next h' => cases h.symm.trans h'
    · next h' => cases h.symm.trans h'; rfl

/-- The calls of a task that is taken and of what is done then. -/
theorem after_take {e : Queue.Entry τ (Script τ)} (h : g.timer.next g.now = (.run e, timer))
    (rest : List (Call τ (Script τ))) :
    g.timer.after (.take g.now :: (calls { g with timer } e.task.action ++ rest)) =
      (perform { g with timer } e.task).timer.after rest := by
  rw [timer_perform, ← Queue.after_append, Queue.after, List.foldl_cons, Call.apply, h]
  rfl

end

/-- Doing what is due changes the timer by calls only. -/
theorem timer_settle (g : Stage τ) : g.settle.1.timer = g.timer.after g.settleCalls := by
  induction g using settle.induct with
  | case1 g h =>
      obtain ⟨hsettle, hcalls⟩ := settle_of_ended h
      rw [hsettle, hcalls]
      rfl
  | case2 g hworks w timer h =>
      obtain ⟨hsettle, hcalls⟩ := settle_of_wait (by simpa using hworks) h
      simp [hsettle, hcalls, Queue.after, Call.apply, h]
  | case3 g hworks time timer h =>
      obtain ⟨hsettle, hcalls⟩ := settle_of_late (by simpa using hworks) h
      simp [hsettle, hcalls, Queue.after, Call.apply, h]
  | case4 g hworks e timer h ih =>
      obtain ⟨hsettle, hcalls⟩ := settle_of_run (by simpa using hworks) h
      rw [hsettle, hcalls, after_take h, ih]

/-! ### Failures -/

/-- The stage with further events before those that it tells. -/
def since (g : Stage τ) (events : List (Event τ)) : Stage τ :=
  { g with events := events ++ g.events }

omit [Sub τ] in
mutual

/-- What a script does does not depend on what happened before. -/
theorem run_since (g : Stage τ) (events : List (Event τ)) (s : Script τ) :
    (g.since events).run s = ((g.run s).1.since events, (g.run s).2) ∧
      (g.since events).calls s = g.calls s := by
  cases s with
  | note | notePending => simp [run, calls, since, tell]
  | fail | abort | sleep | shutdown => exact ⟨rfl, rfl⟩
  | schedule key s delay? =>
      simp only [run, calls, schedule, since]
      cases g.timer.schedule g.now key s delay? <;> simp
  | sequence ss =>
      simp only [run, calls]
      exact runAll_since g events ss

/-- What several scripts do does not depend on what happened before. -/
theorem runAll_since (g : Stage τ) (events : List (Event τ)) (ss : List (Script τ)) :
    (g.since events).runAll ss = ((g.runAll ss).1.since events, (g.runAll ss).2) ∧
      (g.since events).callsAll ss = g.callsAll ss := by
  cases ss with
  | nil => exact ⟨rfl, rfl⟩
  | cons s ss =>
      obtain ⟨hrun, hcalls⟩ := run_since g events s
      simp only [runAll, callsAll, hrun, hcalls]
      obtain ⟨g', outcome, h⟩ : ∃ g' outcome, g.run s = (g', outcome) := ⟨_, _, rfl⟩
      rw [h]
      cases outcome with
      | done =>
          obtain ⟨hrest, hcallsRest⟩ := runAll_since g' events ss
          exact ⟨hrest, congrArg _ hcallsRest⟩
      | failed cause => exact ⟨rfl, rfl⟩
      | aborted => exact ⟨rfl, rfl⟩

end

omit [Sub τ] in
theorem perform_since (g : Stage τ) (events : List (Event τ)) (task : Task τ (Script τ)) :
    (g.since events).perform task = (g.perform task).since events := by
  unfold perform
  rw [(run_since g events task.action).1]
  obtain ⟨g', outcome, h⟩ : ∃ g' outcome, g.run task.action = (g', outcome) := ⟨_, _, rfl⟩
  rw [h]
  cases outcome with
  | done => rfl
  | failed cause => simp [tell, since]
  | aborted => rfl

/-- What is done does not depend on what happened before. -/
theorem settle_since (g : Stage τ) (events : List (Event τ)) :
    (g.since events).settle = (g.settle.1.since events, g.settle.2) ∧
      (g.since events).settleCalls = g.settleCalls := by
  induction g using settle.induct with
  | case1 g h =>
      have hsince : (g.since events).ended = true := h
      rw [(settle_of_ended h).1, (settle_of_ended h).2, (settle_of_ended hsince).1,
        (settle_of_ended hsince).2]
      exact ⟨rfl, rfl⟩
  | case2 g hended w timer h =>
      have hworks : g.ended = false := by simpa using hended
      have hsince : (g.since events).timer.next (g.since events).now = (.wait w, timer) := h
      rw [(settle_of_wait hworks h).1, (settle_of_wait hworks h).2,
        (settle_of_wait (g := g.since events) hworks hsince).1,
        (settle_of_wait (g := g.since events) hworks hsince).2]
      exact ⟨rfl, rfl⟩
  | case3 g hended time timer h =>
      have hworks : g.ended = false := by simpa using hended
      have hsince : (g.since events).timer.next (g.since events).now = (.late time, timer) := h
      rw [(settle_of_late hworks h).1, (settle_of_late hworks h).2,
        (settle_of_late (g := g.since events) hworks hsince).1,
        (settle_of_late (g := g.since events) hworks hsince).2]
      exact ⟨rfl, rfl⟩
  | case4 g hended e timer h ih =>
      have hworks : g.ended = false := by simpa using hended
      have hsince : (g.since events).timer.next (g.since events).now = (.run e, timer) := h
      have hperform := perform_since { g with timer } events e.task
      rw [(settle_of_run hworks h).1, (settle_of_run hworks h).2,
        (settle_of_run (g := g.since events) hworks hsince).1,
        (settle_of_run (g := g.since events) hworks hsince).2]
      change (perform (since { g with timer } events) e.task).settle = _ ∧
        _ :: (calls (since { g with timer } events) e.task.action ++
          (perform (since { g with timer } events) e.task).settleCalls) = _
      rw [hperform, ih.1, ih.2, (run_since _ _ _).2]
      exact ⟨rfl, rfl⟩

/-- If the task fails, then it only leaves a record. The calls that follow, and all else that happens,
are the same as if the task had ended there without a failure. -/
def FailsAlone (g : Stage τ) (task : Task τ (Script τ)) : Prop :=
  ∀ g' cause, g.run task.action = (g', .failed cause) →
    (g.perform task).settleCalls = g'.settleCalls ∧
      ∃ events, g'.settle.1.events = g'.events ++ events ∧
        (g.perform task).settle =
          ({ g'.settle.1 with
              events := g'.events ++ .record (Timer.failure task.key cause) :: events },
            g'.settle.2)

/-- A failure concerns the task alone. -/
theorem failsAlone (g : Stage τ) (task : Task τ (Script τ)) : g.FailsAlone task := by
  intro g' cause h
  set r : Event τ := .record (Timer.failure task.key cause) with hr
  set fresh : Stage τ := { g' with events := [] } with hfresh
  have hperform : g.perform task = fresh.since (g'.events ++ [r]) := by
    simp [perform, h, tell, since, hfresh, hr]
  have hg' : g' = fresh.since g'.events := by
    simp [since, hfresh]
  obtain ⟨hsettle, hcalls⟩ := settle_since fresh g'.events
  obtain ⟨hsettle', hcalls'⟩ := settle_since fresh (g'.events ++ [r])
  rw [← hg'] at hsettle hcalls
  rw [hperform, hsettle, hsettle', hcalls, hcalls']
  exact ⟨rfl, fresh.settle.1.events, rfl, by simp [since]⟩

/-! ### Inputs -/

/-- What comes from outside. -/
inductive Input (τ : Type)
  /-- A task is scheduled. -/
  | schedule (key : String) (s : Script τ) (delay? : Option τ)
  /-- The clock goes on, and what is due is done. -/
  | advance (time : τ)
  /-- The timer is shut down. -/
  | shutdown

/-- A stage on which nothing happened yet. -/
def start (times : Queue.Times τ) (now : τ) : Stage τ :=
  ⟨.start times, now, [], false⟩

/-- The stage after an input. -/
def follow (g : Stage τ) : Input τ → Stage τ
  | .schedule key s delay? => (g.schedule key s delay?).1
  | .advance time => (g.advance time).1
  | .shutdown => g.shutdown

/-- The stage after several inputs. -/
def followAll (g : Stage τ) (inputs : List (Input τ)) : Stage τ :=
  inputs.foldl follow g

/-- What is asked of the timer during an input. -/
def inputCalls (g : Stage τ) : Input τ → List (Call τ (Script τ))
  | .schedule key s delay? => [.schedule g.now key s delay?]
  | .advance time => settleCalls { g with now := g.now + time }
  | .shutdown => [.shutdown]

/-- What is asked of the timer during several inputs. -/
def history (g : Stage τ) : List (Input τ) → List (Call τ (Script τ))
  | [] => []
  | input :: inputs => g.inputCalls input ++ (g.follow input).history inputs

theorem history_append (g : Stage τ) (inputs inputs' : List (Input τ)) :
    g.history (inputs ++ inputs') = g.history inputs ++ (g.followAll inputs).history inputs' := by
  induction inputs generalizing g with
  | nil => rfl
  | cons input inputs ih =>
      rw [List.cons_append, history, history, ih, List.append_assoc]
      rfl

theorem timer_follow (g : Stage τ) (input : Input τ) :
    (g.follow input).timer = g.timer.after (g.inputCalls input) := by
  cases input with
  | schedule key s delay? => exact timer_schedule g key s delay?
  | advance time => exact timer_settle { g with now := g.now + time }
  | shutdown => rfl

/-- The timer after a run is the timer after its calls. -/
theorem timer_followAll (g : Stage τ) (inputs : List (Input τ)) :
    (g.followAll inputs).timer = g.timer.after (g.history inputs) := by
  induction inputs generalizing g with
  | nil => rfl
  | cons input inputs ih =>
      rw [followAll, List.foldl_cons, history, Queue.after_append, ← timer_follow]
      exact ih _

end Npl.Stage
