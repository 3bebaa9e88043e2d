/-!
# Delayed tasks

A timer holds tasks until they are due. There is at most one task for each key: a new task for the
key takes the place of the one that is waiting, so that a burst of requests leads to one run after
the last of them. Of several tasks that are due, the one that was due first is taken first, and of
those the one that was scheduled first.

The clock is not part of the timer. Its readings may be of any type that can be added, subtracted and
compared.

## Main definitions

* `Timer.schedule` — adds a task.
* `Timer.due?` — takes the next task that is due.
* `Timer.wait` — how long there is nothing to do.

## Main results

* `Timer.perm_of_due?` — a task that is taken was waiting, and all others go on waiting.
-/

namespace Npl

/-- A task: its key, the time at which it is due, and what is to be done. -/
structure Task (τ α : Type) where
  key : String
  due : τ
  action : α
deriving DecidableEq, Repr

/-- The waiting tasks in the order in which they were scheduled, the usual delay, and whether the
timer was shut down for good. -/
structure Timer (τ α : Type) where
  delay : τ
  tasks : List (Task τ α)
  stopped : Bool
deriving DecidableEq, Repr

/-- How long a timer has nothing to do. -/
inductive Wait (τ : Type)
  /-- It was shut down. -/
  | stopped
  /-- Until a task is scheduled. -/
  | forever
  /-- Until the next task is due. -/
  | lasting (time : τ)
deriving DecidableEq, Repr

namespace Timer

variable {τ α : Type}

/-- A timer without tasks. -/
def start (delay : τ) : Timer τ α :=
  ⟨delay, [], false⟩

/-- The keys of the waiting tasks. -/
def pending (t : Timer τ α) : List String :=
  t.tasks.map Task.key

/-- Shuts the timer down: all tasks are dropped, and no more are taken. -/
def shutdown (t : Timer τ α) : Timer τ α :=
  { t with tasks := [], stopped := true }

/-- Adds a task that is due after the given delay, or after the usual one, instead of the task with
its key. A timer that was shut down takes no tasks. -/
def schedule [Add τ] (t : Timer τ α) (now : τ) (key : String) (action : α) (delay? : Option τ) :
    Option (Timer τ α) :=
  if t.stopped then none
  else
    let task : Task τ α := ⟨key, now + delay?.getD t.delay, action⟩
    some { t with tasks := t.tasks.filter (·.key ≠ key) ++ [task] }

section Order

variable [LT τ] [DecidableLT τ]

/-- The first of the tasks that are due earliest, and the other tasks in their order. -/
def earliest? : List (Task τ α) → Option (Task τ α × List (Task τ α))
  | [] => none
  | task :: tasks =>
    match earliest? tasks with
    | none => some (task, tasks)
    | some (other, rest) =>
      if other.due < task.due then some (other, task :: rest) else some (task, tasks)

/-- The task to be taken next, if any task is due, and the timer without it. -/
def due? (t : Timer τ α) (now : τ) : Option (Task τ α × Timer τ α) :=
  match earliest? t.tasks with
  | none => none
  | some (task, rest) => if now < task.due then none else some (task, { t with tasks := rest })

/-- How long there is nothing to do, if no task is due. -/
def wait [Sub τ] (t : Timer τ α) (now : τ) : Wait τ :=
  if t.stopped then .stopped
  else
    match earliest? t.tasks with
    | none => .forever
    | some (task, _) => .lasting (task.due - now)

/-! ### Taking tasks -/

/-- Picking the earliest task only takes it out of the list. -/
theorem perm_of_earliest? {tasks rest : List (Task τ α)} {task : Task τ α}
    (h : earliest? tasks = some (task, rest)) : (task :: rest).Perm tasks := by
  induction tasks generalizing task rest with
  | nil => simp [earliest?] at h
  | cons first tasks ih =>
    rw [earliest?] at h
    split at h
    · obtain ⟨rfl, rfl⟩ := by simpa using h
      exact .refl _
    · next other others hothers =>
      split at h
      · obtain ⟨rfl, rfl⟩ := by simpa using h
        exact (List.Perm.swap ..).trans ((ih hothers).cons _)
      · obtain ⟨rfl, rfl⟩ := by simpa using h
        exact .refl _

/-- A task that is due is taken out of the waiting ones, which stay as they are otherwise. -/
theorem perm_of_due? {t t' : Timer τ α} {now : τ} {task : Task τ α}
    (h : t.due? now = some (task, t')) : (task :: t'.tasks).Perm t.tasks := by
  unfold due? at h
  split at h
  · simp at h
  · next first rest hfirst =>
    split at h
    · simp at h
    · obtain ⟨rfl, rfl⟩ := by simpa using h
      exact perm_of_earliest? hfirst

/-- Taking a task leaves one task less. -/
theorem length_of_due? {t t' : Timer τ α} {now : τ} {task : Task τ α}
    (h : t.due? now = some (task, t')) : t'.tasks.length + 1 = t.tasks.length := by
  simpa using (perm_of_due? h).length_eq

/-- Takes all tasks that are due, in the order in which they are to be done. -/
def takeDue (t : Timer τ α) (now : τ) : List (Task τ α) × Timer τ α :=
  match _h : t.due? now with
  | none => ([], t)
  | some (task, t') =>
    let (tasks, rest) := t'.takeDue now
    (task :: tasks, rest)
termination_by t.tasks.length
decreasing_by have := length_of_due? _h; omega

end Order

end Timer

end Npl
