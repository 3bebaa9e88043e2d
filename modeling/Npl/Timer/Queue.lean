import Npl.Keyed
import Npl.Timer

/-!
# Queues of tasks

A queue does what a timer does, and looks only at the task at its front. The tasks stand in the order
in which they are to be done: by the time at which they are due, and those of one time by their
numbers, which are given in the order of scheduling.

A task whose place is taken by another one is not looked for. It is marked as cancelled, goes on
standing in the queue, and is dropped when it comes to the front. Which task waits for a key is kept
beside the queue.

There is a longest time that can be waited for. A queue takes a task that is due later than that, but
whoever is to do the tasks cannot wait for it.

## Main definitions

* `Queue.schedule` — adds a task, and cancels the one that waits for its key.
* `Queue.next` — takes the task at the front if it is due.
* `Queue.shutdown` — drops all tasks, and takes no more.

## Main results

* `Queue.of_next_run`, `Queue.of_next_wait`, `Queue.of_next_late` — what it means that a task is
  taken, or that none is.
-/

namespace Npl

/-- The usual delay of a task, and the longest time that can be waited for. -/
structure Queue.Times (τ : Type) where
  delay : τ
  longest : τ
deriving DecidableEq, Repr

/-- A task in a queue: its number, and whether another one took its place. -/
structure Queue.Entry (τ α : Type) where
  number : Nat
  task : Task τ α
  cancelled : Bool
deriving DecidableEq, Repr

/-- The times that were set, the number of the task that waits for each key, the tasks in the order in
which they are to be done, the number of the next task, and whether the queue was shut down for
good. -/
structure Queue (τ α : Type) where
  times : Queue.Times τ
  numbers : Keyed Nat
  entries : List (Queue.Entry τ α)
  counter : Nat
  stopped : Bool
deriving DecidableEq, Repr

/-- What is to be done next. -/
inductive Queue.Turn (τ α : Type)
  /-- No task is due. -/
  | wait (w : Wait τ)
  /-- The next task is due after a time that is too long to be waited for. -/
  | late (time : τ)
  /-- A task is due. -/
  | run (e : Entry τ α)
deriving DecidableEq, Repr

namespace Queue

variable {τ α : Type}

namespace Entry

/-- The first entry is to be done before the second one. -/
def Before [LT τ] (e f : Entry τ α) : Prop :=
  e.task.due < f.task.due ∨ ¬ f.task.due < e.task.due ∧ e.number < f.number

instance [LT τ] [DecidableLT τ] (e f : Entry τ α) : Decidable (e.Before f) :=
  inferInstanceAs (Decidable (_ ∨ _))

/-- The entry marked as cancelled. -/
def cancel (e : Entry τ α) : Entry τ α :=
  { e with cancelled := true }

end Entry

/-- A queue without tasks. -/
def start (times : Times τ) : Queue τ α :=
  ⟨times, .empty, [], 0, false⟩

/-- The keys of the waiting tasks. -/
def pending (q : Queue τ α) : List String :=
  q.numbers.keys

/-- Shuts the queue down: all tasks are dropped, and no more are taken. -/
def shutdown (q : Queue τ α) : Queue τ α :=
  { q with numbers := .empty, entries := [], stopped := true }

/-- The new task of a key, which is due after the given delay or after the usual one. -/
def entry [Add τ] (q : Queue τ α) (now : τ) (key : String) (action : α) (delay? : Option τ) :
    Entry τ α :=
  ⟨q.counter, ⟨key, now + delay?.getD q.times.delay, action⟩, false⟩

/-- The entries with the one of the given number cancelled, if a number is given. -/
def cancelNumber (number? : Option Nat) (entries : List (Entry τ α)) : List (Entry τ α) :=
  entries.map fun e => if number? = some e.number then e.cancel else e

section Order

variable [LT τ] [DecidableLT τ]

/-- The entries with a further one in its place. -/
def enqueue (e : Entry τ α) : List (Entry τ α) → List (Entry τ α)
  | [] => [e]
  | f :: fs => if e.Before f then e :: f :: fs else f :: enqueue e fs

/-- Adds a task, and cancels the one that waits for its key. A queue that was shut down takes no
tasks. -/
def schedule [Add τ] (q : Queue τ α) (now : τ) (key : String) (action : α) (delay? : Option τ) :
    Option (Queue τ α) :=
  if q.stopped then none
  else
    let entries := cancelNumber (q.numbers.get? key) q.entries
    some
      { q with
        numbers := (q.numbers.erase key).set key q.counter
        entries := enqueue (q.entry now key action delay?) entries
        counter := q.counter + 1 }

/-- What is to be done next. The cancelled entries at the front are dropped. A task that is due is
taken out, so that from then on another one can wait for its key. -/
def next [Sub τ] (q : Queue τ α) (now : τ) : Turn τ α × Queue τ α :=
  if q.stopped then (.wait .stopped, q)
  else
    match q.entries.dropWhile (·.cancelled) with
    | [] => (.wait .forever, { q with entries := [] })
    | e :: rest =>
      if now < e.task.due then
        let time := e.task.due - now
        let turn := if q.times.longest < time then .late time else .wait (.lasting time)
        (turn, { q with entries := e :: rest })
      else
        let key := e.task.key
        let numbers := if q.numbers.get? key = some e.number then q.numbers.erase key else q.numbers
        (.run e, { q with numbers, entries := rest })

/-! ### Turns -/

variable [Sub τ] {q q' : Queue τ α} {now : τ}

/-- A task that is taken stood at the front, behind cancelled ones only, and was due. -/
theorem of_next_run {e : Entry τ α} (h : q.next now = (.run e, q')) :
    q.stopped = false ∧ ¬ now < e.task.due ∧ ∃ numbers rest,
      q.entries.dropWhile (·.cancelled) = e :: rest ∧
      q' = { q with numbers, entries := rest } ∧
      numbers = if q.numbers.get? e.task.key = some e.number then q.numbers.erase e.task.key
        else q.numbers := by
  unfold next at h
  split at h
  · simp at h
  · next hrunning =>
    split at h
    · simp at h
    · next first rest hfront =>
      split at h
      · obtain ⟨hturn, -⟩ := Prod.mk.inj h
        split at hturn <;> simp at hturn
      · next hdue =>
        obtain ⟨hfirst, rfl⟩ := Prod.mk.inj h
        obtain rfl := Turn.run.inj hfirst
        exact ⟨by simpa using hrunning, hdue, _, rest, hfront, rfl, rfl⟩

/-- If the next task cannot be waited for, then it is the first one that is not cancelled. -/
theorem of_next_late {time : τ} (h : q.next now = (.late time, q')) :
    q.stopped = false ∧ q' = { q with entries := q.entries.dropWhile (·.cancelled) } ∧
      ∃ e rest, q.entries.dropWhile (·.cancelled) = e :: rest ∧ now < e.task.due ∧
        time = e.task.due - now ∧ q.times.longest < time := by
  unfold next at h
  split at h
  · simp at h
  · next hrunning =>
    split at h
    · simp at h
    · next first rest hfront =>
      split at h
      · next hearly =>
        obtain ⟨hturn, rfl⟩ := Prod.mk.inj h
        split at hturn
        · next hlong =>
          obtain rfl := Turn.late.inj hturn
          exact ⟨by simpa using hrunning, by rw [hfront], first, rest, hfront, hearly, rfl, hlong⟩
        · simp at hturn
      · simp at h

/-- If nothing is to be done for a while, then the queue was shut down, or holds no task that is not
cancelled, or the first such task is not due yet. -/
theorem of_next_wait {w : Wait τ} (h : q.next now = (.wait w, q')) :
    (q.stopped = true ∧ w = .stopped ∧ q' = q) ∨
      q.stopped = false ∧ q' = { q with entries := q.entries.dropWhile (·.cancelled) } ∧
        (q.entries.dropWhile (·.cancelled) = [] ∧ w = .forever ∨
          ∃ e rest, q.entries.dropWhile (·.cancelled) = e :: rest ∧ now < e.task.due ∧
            w = .lasting (e.task.due - now)) := by
  unfold next at h
  split at h
  · next hstopped =>
    obtain ⟨hw, rfl⟩ := Prod.mk.inj h
    exact .inl ⟨hstopped, (Turn.wait.inj hw).symm, rfl⟩
  · next hrunning =>
    refine .inr ⟨by simpa using hrunning, ?_⟩
    split at h
    · next hfront =>
      obtain ⟨hw, rfl⟩ := Prod.mk.inj h
      exact ⟨by rw [hfront], .inl ⟨hfront, (Turn.wait.inj hw).symm⟩⟩
    · next first rest hfront =>
      split at h
      · next hearly =>
        obtain ⟨hturn, rfl⟩ := Prod.mk.inj h
        split at hturn
        · simp at hturn
        · exact ⟨by rw [hfront],
            .inr ⟨first, rest, hfront, hearly, (Turn.wait.inj hturn).symm⟩⟩
      · simp at h

end Order

end Queue

end Npl
