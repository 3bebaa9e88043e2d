import Mathlib.Order.Basic
import Npl.Timer

/-!
# Waiting for tasks

All tasks of a timer are done in the end: once all of them are due, taking what is due takes at
least one, and it takes nothing that is not waiting.

## Main definitions

* `Timer.DueBy` — all waiting tasks are due by some time.

## Main results

* `Timer.takeDue_eq` — taking what is due leaves a timer with some of its tasks.
* `Timer.takeDue_ne_nil` — once all tasks are due, some task is taken.
-/

namespace Npl.Timer

variable {τ α : Type}

/-! ### Scheduling -/

section

variable [Preorder τ]

/-- All waiting tasks are due by the given time. -/
def DueBy (t : Timer τ α) (time : τ) : Prop :=
  ∀ task ∈ t.tasks, task.due ≤ time

theorem DueBy.mono {t : Timer τ α} {time later : τ} (h : t.DueBy time) (hle : time ≤ later) :
    t.DueBy later :=
  fun task htask => (h task htask).trans hle

/-- A timer that was not shut down takes a task. It is due after the delay, and the others are due
as they were. -/
theorem DueBy.schedule [Add τ] {t : Timer τ α} {now : τ} (h : t.DueBy (now + t.delay))
    (hrunning : t.stopped = false) (key : String) (action : α) :
    ∃ tasks, t.schedule now key action none = some { t with tasks } ∧ tasks ≠ [] ∧
      DueBy { t with tasks } (now + t.delay) := by
  refine ⟨t.tasks.filter (·.key ≠ key) ++ [⟨key, now + t.delay, action⟩],
    by simp [Timer.schedule, hrunning], by simp, ?_⟩
  intro task htask
  rcases List.mem_append.1 htask with hold | hnew
  · exact h task (List.mem_filter.1 hold).1
  · obtain rfl := List.mem_singleton.1 hnew
    exact le_rfl

end

/-! ### Taking what is due -/

section

variable [LT τ] [DecidableLT τ] {t : Timer τ α} {now : τ}

/-- Of several tasks one is the earliest. -/
theorem exists_earliest? {tasks : List (Task τ α)} (h : tasks ≠ []) :
    ∃ task rest, earliest? tasks = some (task, rest) := by
  cases tasks with
  | nil => exact absurd rfl h
  | cons task tasks =>
      rw [earliest?]
      split
      · exact ⟨_, _, rfl⟩
      · split
        · exact ⟨_, _, rfl⟩
        · exact ⟨_, _, rfl⟩

/-- The task that is picked is due earlier than those before it, and no later than those behind
it. -/
theorem earliest?_append_cons {before behind : List (Task τ α)} {task : Task τ α}
    (hbefore : ∀ other ∈ before, task.due < other.due)
    (hbehind : ∀ other ∈ behind, ¬ other.due < task.due) :
    earliest? (before ++ task :: behind) = some (task, before ++ behind) := by
  induction before with
  | nil =>
      rw [List.nil_append, earliest?]
      split
      · rfl
      · next other rest hother =>
          have hmem : other ∈ behind := (perm_of_earliest? hother).mem_iff.1 List.mem_cons_self
          rw [if_neg (hbehind other hmem)]
          rfl
  | cons first before ih =>
      have hfirst := hbefore first List.mem_cons_self
      have hrest : ∀ other ∈ before, task.due < other.due := fun other hother =>
        hbefore other (List.mem_cons_of_mem _ hother)
      rw [List.cons_append, earliest?, ih hrest]
      simp only [if_pos hfirst]
      rfl

/-- Taking a task only takes it out of the list. -/
theorem due?_eq {task : Task τ α} {t' : Timer τ α} (h : t.due? now = some (task, t')) :
    t' = { t with tasks := t'.tasks } ∧ t'.tasks ⊆ t.tasks := by
  refine ⟨?_, fun other hother => (perm_of_due? h).mem_iff.1 (List.mem_cons_of_mem _ hother)⟩
  unfold due? at h
  split at h
  · simp at h
  · split at h
    · simp at h
    · obtain ⟨-, rfl⟩ := by simpa using h
      rfl

/-- Nothing is due: nothing is taken. -/
theorem takeDue_of_none (h : t.due? now = none) : t.takeDue now = ([], t) := by
  rw [takeDue]
  split
  · rfl
  · next hsome => simp [h] at hsome

/-- Something is due: it is taken first. -/
theorem takeDue_of_some {task : Task τ α} {t' : Timer τ α} (h : t.due? now = some (task, t')) :
    t.takeDue now = (task :: (t'.takeDue now).1, (t'.takeDue now).2) := by
  rw [takeDue]
  split
  · next hnone => simp [h] at hnone
  · next hsome =>
      rw [h] at hsome
      obtain ⟨rfl, rfl⟩ := by simpa using hsome
      rfl

/-- What is left behind when all that is due was taken was waiting before, and else the timer is as
it was. -/
theorem takeDue_eq (t : Timer τ α) (now : τ) :
    (t.takeDue now).2 = { t with tasks := (t.takeDue now).2.tasks } ∧
      (t.takeDue now).2.tasks ⊆ t.tasks := by
  cases h : t.due? now with
  | none =>
      rw [takeDue_of_none h]
      exact ⟨rfl, List.Subset.refl _⟩
  | some taken =>
      obtain ⟨task, t'⟩ := taken
      obtain ⟨heq, hsubset⟩ := due?_eq h
      obtain ⟨hrest, hless⟩ := takeDue_eq t' now
      rw [takeDue_of_some h]
      refine ⟨hrest.trans ?_, List.Subset.trans hless hsubset⟩
      rw [heq]
termination_by t.tasks.length
decreasing_by
  have := length_of_due? h
  omega

/-- A timer of which nothing is taken stays as it is. -/
theorem takeDue_of_nil (h : (t.takeDue now).1 = []) : (t.takeDue now).2 = t := by
  cases hdue : t.due? now with
  | none => rw [takeDue_of_none hdue]
  | some taken => simp [takeDue_of_some hdue] at h

/-- Without tasks nothing is taken. -/
theorem takeDue_of_tasks_nil (h : t.tasks = []) : t.takeDue now = ([], t) :=
  takeDue_of_none (by simp [due?, h, earliest?])

end

/-! ### When all tasks are due -/

section

variable [Preorder τ] [DecidableLT τ] {t : Timer τ α} {now : τ}

/-- Once all tasks are due, one of them is to be taken. -/
theorem DueBy.exists_due? (h : t.DueBy now) (hne : t.tasks ≠ []) :
    ∃ task t', t.due? now = some (task, t') := by
  obtain ⟨task, rest, hearliest⟩ := exists_earliest? hne
  have hmem : task ∈ t.tasks := (perm_of_earliest? hearliest).mem_iff.1 List.mem_cons_self
  have hdue : ¬ now < task.due := not_lt_of_ge (h task hmem)
  exact ⟨task, { t with tasks := rest }, by simp [due?, hearliest, hdue]⟩

/-- Once all tasks are due, some task is taken. -/
theorem DueBy.takeDue_ne_nil (h : t.DueBy now) (hne : t.tasks ≠ []) : (t.takeDue now).1 ≠ [] := by
  obtain ⟨task, t', hdue⟩ := h.exists_due? hne
  simp [takeDue_of_some hdue]

end

end Npl.Timer
