import Npl.Proofs.Timer.Queue

/-!
# The law of a queue

Whoever uses a queue schedules tasks, takes what is due, and in the end shuts it down, in any order
and at any times. This module follows each single task through such a run of calls. Tasks are told
apart by their numbers, which no two accepted tasks share.

One worker takes the tasks. It ends if it would have to wait too long, or if a task ends it. What a
run of calls is like after that is up to whoever makes the calls: the queue goes on as before.

## Main definitions

* `Queue.Call` — what is asked of a queue.
* `Queue.Accepted`, `Queue.Started`, `Queue.Overruled` — what a call does to a task.
* `Queue.Ended` — a call ends the worker.
* `Queue.Waiting` — a task was accepted, and neither started nor overruled since.
* `Queue.Served` — a task was started, if it was not overruled before.
* `Queue.Lawful` — what holds of all tasks throughout a run.

## Main results

* `Queue.Holds.apply` — what a single call does to the tasks that a queue holds.
* `Queue.exists_holds` — at any time a queue holds the tasks that wait.
* `Queue.lawful` — every run is lawful.
-/

namespace Npl.Queue

variable {τ α : Type}

/-! ### Calls -/

/-- What is asked of a queue. -/
inductive Call (τ α : Type)
  /-- A task is scheduled, with what the clock shows. -/
  | schedule (now : τ) (key : String) (action : α) (delay? : Option τ)
  /-- The next task that is due by the clock is taken. -/
  | take (now : τ)
  /-- The queue is shut down. -/
  | shutdown
  /-- The task that was taken last ends the worker, which does not concern the queue. -/
  | abort

section Calls

variable [Add τ] [Sub τ] [LT τ] [DecidableLT τ]

namespace Call

/-- The queue after a call. A task that is refused leaves it as it is. -/
def apply (q : Queue τ α) : Call τ α → Queue τ α
  | schedule now key action delay? => (q.schedule now key action delay?).getD q
  | take now => (q.next now).2
  | shutdown => q.shutdown
  | abort => q

/-- The call adds the task. -/
def Adds (q : Queue τ α) (e : Entry τ α) : Call τ α → Prop
  | schedule now key action delay? =>
    (q.schedule now key action delay?).isSome ∧ e = q.entry now key action delay?
  | take _ | shutdown | abort => False

/-- The call takes the task, which is started then. -/
def Starts (q : Queue τ α) (e : Entry τ α) : Call τ α → Prop
  | take now => (q.next now).1 = .run e
  | schedule .. | shutdown | abort => False

/-- The call leaves no place to the task if it waits: it adds a task of the same key, or shuts the
queue down. -/
def Drops (q : Queue τ α) (e : Entry τ α) : Call τ α → Prop
  | schedule now key action delay? =>
    (q.schedule now key action delay?).isSome ∧ key = e.task.key
  | take _ | abort => False
  | shutdown => True

/-- The call ends the worker: the next task is due after a time that is too long to be waited for, or
the task that was taken last says so. -/
def Ends (q : Queue τ α) : Call τ α → Prop
  | take now => ∃ time, (q.next now).1 = .late time
  | abort => True
  | schedule .. | shutdown => False

end Call

/-- The queue after several calls. -/
def after (q : Queue τ α) (calls : List (Call τ α)) : Queue τ α :=
  calls.foldl Call.apply q

theorem after_append (q : Queue τ α) (calls calls' : List (Call τ α)) :
    q.after (calls ++ calls') = (q.after calls).after calls' :=
  List.foldl_append ..

omit [Sub τ] in
/-- A queue takes a task unless it was shut down. -/
theorem isSome_schedule_iff {q : Queue τ α} {now : τ} {key : String} {action : α}
    {delay? : Option τ} :
    (q.schedule now key action delay?).isSome ↔ q.stopped = false := by
  unfold schedule
  cases q.stopped <;> simp

/-- A call after the shutdown changes nothing. -/
theorem Call.apply_of_stopped {q : Queue τ α} (hstopped : q.stopped = true)
    (hempty : q.entries = []) (hkeys : q.numbers = .empty) (call : Call τ α) : call.apply q = q := by
  cases call with
  | schedule now key action delay? => simp [apply, Queue.schedule, hstopped]
  | take now => simp [apply, next, hstopped]
  | shutdown =>
      obtain ⟨times, numbers, entries, counter, stopped⟩ := q
      simp only at hstopped hempty hkeys
      rw [apply, Queue.shutdown, hstopped, hempty, hkeys]
  | abort => rfl

/-! ### Numbers -/

/-- A new task gets the next number, and no number is given twice. -/
theorem Call.Adds.counter {q : Queue τ α} {e : Entry τ α} {call : Call τ α} (h : call.Adds q e) :
    e.number = q.counter ∧ e.cancelled = false ∧ (call.apply q).counter = e.number + 1 := by
  cases call with
  | schedule now key action delay? =>
      obtain ⟨hsome, rfl⟩ := h
      rw [isSome_schedule_iff] at hsome
      exact ⟨rfl, rfl, by simp [apply, Queue.schedule, hsome, entry]⟩
  | take now => exact h.elim
  | shutdown => exact h.elim
  | abort => exact h.elim

/-! ### What stays -/

omit [Add τ] in
/-- A turn changes nothing but the tasks. -/
theorem exists_next_eq (q : Queue τ α) (now : τ) :
    ∃ numbers entries, (q.next now).2 = { q with numbers, entries } := by
  unfold next
  split
  · exact ⟨_, _, rfl⟩
  · split
    · exact ⟨_, _, rfl⟩
    · split <;> exact ⟨_, _, rfl⟩

theorem Call.times_apply (q : Queue τ α) (call : Call τ α) : (call.apply q).times = q.times := by
  cases call with
  | schedule now key action delay? =>
      simp only [apply, Queue.schedule]
      split <;> rfl
  | take now =>
      obtain ⟨numbers, entries, hnext⟩ := exists_next_eq q now
      rw [apply, hnext]
  | shutdown => rfl
  | abort => rfl

theorem Call.counter_le_apply (q : Queue τ α) (call : Call τ α) :
    q.counter ≤ (call.apply q).counter := by
  cases call with
  | schedule now key action delay? =>
      simp only [apply, Queue.schedule]
      split
      · exact Nat.le_refl _
      · exact Nat.le_succ _
  | take now =>
      obtain ⟨numbers, entries, hnext⟩ := exists_next_eq q now
      rw [apply, hnext]
  | shutdown => exact Nat.le_refl _
  | abort => exact Nat.le_refl _

/-- Only the shutdown shuts a queue down. -/
theorem Call.stopped_apply_iff (q : Queue τ α) (call : Call τ α) :
    (call.apply q).stopped = true ↔ q.stopped = true ∨ call = .shutdown := by
  cases call with
  | schedule now key action delay? =>
      simp only [apply, Queue.schedule, reduceCtorEq, or_false]
      split
      · rfl
      · rfl
  | take now =>
      obtain ⟨numbers, entries, hnext⟩ := exists_next_eq q now
      simp only [apply, hnext, reduceCtorEq, or_false]
  | shutdown => simp [apply, Queue.shutdown]
  | abort => simp [apply]

end Calls

/-! ### One call -/

/-- A call takes out the task that it starts and those that it drops, adds a new one, and leaves all
others waiting. -/
theorem Holds.apply [LinearOrder τ] [Add τ] [Sub τ] {q : Queue τ α} {es : List (Entry τ α)}
    (h : q.Holds es) (call : Call τ α) :
    ∃ es', (call.apply q).Holds es' ∧
      ∀ e, e ∈ es' ↔ e ∈ es ∧ ¬ call.Starts q e ∧ ¬ call.Drops q e ∨ call.Adds q e := by
  cases call with
  | schedule now key action delay? =>
      simp only [Call.apply, Call.Starts, Call.Drops, Call.Adds]
      cases hschedule : q.schedule now key action delay? with
      | none => exact ⟨es, h, fun e => by simp⟩
      | some q' =>
          refine ⟨_, h.schedule hschedule, fun e => ?_⟩
          rw [List.mem_append, List.mem_filter, List.mem_singleton]
          simp [@eq_comm _ key]
  | take now =>
      obtain ⟨turn, q', hnext⟩ : ∃ turn q', q.next now = (turn, q') := ⟨_, _, rfl⟩
      simp only [Call.apply, Call.Starts, Call.Drops, Call.Adds, hnext]
      cases turn with
      | run first =>
          obtain ⟨hfirst, -, -, hholds⟩ := h.of_run hnext
          refine ⟨_, hholds, fun e => ?_⟩
          rw [List.mem_filter, decide_eq_true_eq]
          simp only [Turn.run.injEq, not_false_eq_true, and_true, or_false]
          refine and_congr_right fun he => not_congr ⟨fun hkey => ?_, fun heq => heq ▸ rfl⟩
          exact (h.eq_of_key he hfirst hkey).symm
      | wait w =>
          exact ⟨es, (h.of_wait hnext).2, fun e => by simp⟩
      | late time =>
          exact ⟨es, (h.of_late hnext).2, fun e => by simp⟩
  | shutdown =>
      exact ⟨[], .shutdown q, fun e => by simp [Call.Starts, Call.Drops, Call.Adds]⟩
  | abort =>
      exact ⟨es, h, fun e => by simp [Call.Starts, Call.Drops, Call.Adds]⟩

/-- A task that a call starts waits until then, is due, and is to be done before all others. -/
theorem Holds.of_starts [LinearOrder τ] [Add τ] [Sub τ] {q : Queue τ α} {es : List (Entry τ α)}
    (h : q.Holds es) {call : Call τ α} {e : Entry τ α} (hstarts : call.Starts q e) :
    ∃ now, call = .take now ∧ e ∈ es ∧ e.task.due ≤ now ∧ ∀ f ∈ es, f ≠ e → e.Before f := by
  cases call with
  | schedule now key action delay? => exact hstarts.elim
  | take now =>
      obtain ⟨he, hdue, hfirst, -⟩ := h.of_run (Prod.ext hstarts rfl)
      exact ⟨now, rfl, he, hdue, hfirst⟩
  | shutdown => exact hstarts.elim
  | abort => exact hstarts.elim

/-! ### Runs -/

section Runs

variable [LinearOrder τ] [Add τ] [Sub τ] (times : Times τ) (calls : List (Call τ α))

/-- The queue before the call at a place of the run, and behind the end the queue after all calls. -/
def before (n : Nat) : Queue τ α :=
  (start times).after (calls.take n)

/-- The call at a place of the run adds the task. -/
def Accepted (i : Nat) (e : Entry τ α) : Prop :=
  ∃ call, calls[i]? = some call ∧ call.Adds (before times calls i) e

/-- The call at a place of the run starts the task. -/
def Started (k : Nat) (e : Entry τ α) : Prop :=
  ∃ call, calls[k]? = some call ∧ call.Starts (before times calls k) e

/-- The call at a place of the run ends the worker. -/
def Ended (j : Nat) : Prop :=
  ∃ call, calls[j]? = some call ∧ call.Ends (before times calls j)

/-- The task was accepted, and the call at a later place of the run adds another task of its key or
shuts the queue down. -/
def Overruled (j : Nat) (e : Entry τ α) : Prop :=
  (∃ i < j, Accepted times calls i e) ∧
    ∃ call, calls[j]? = some call ∧ call.Drops (before times calls j) e

/-- Before a place of the run the task was accepted, and neither started nor overruled. -/
def Waiting (n : Nat) (e : Entry τ α) : Prop :=
  (∃ i < n, Accepted times calls i e) ∧
    ∀ k < n, ¬ Started times calls k e ∧ ¬ Overruled times calls k e

/-- Before a place of the run the task was started, exactly if it was not overruled before that. -/
def Served (n : Nat) (e : Entry τ α) : Prop :=
  (∃ k < n, Started times calls k e) ↔
    ¬ ∃ j < n, Overruled times calls j e ∧ ∀ k < j, ¬ Started times calls k e

/-- What holds of all tasks throughout a run of calls. -/
structure Lawful : Prop where
  /-- Tasks are accepted until the shutdown. -/
  opened : ∀ n now key action delay?,
    ((before times calls n).schedule now key action delay?).isSome ↔
      ∀ j < n, calls[j]? ≠ some .shutdown
  /-- A task has the key and the action it was scheduled with, and is due after the delay that was
  given, or after the usual one. -/
  scheduled : ∀ {i now key action delay? e}, calls[i]? = some (.schedule now key action delay?) →
    Accepted times calls i e → e.task = ⟨key, now + delay?.getD times.delay, action⟩
  /-- Only accepted tasks are started. -/
  accepted : ∀ {k e}, Started times calls k e → ∃ i < k, Accepted times calls i e
  /-- Tasks have their numbers in the order of scheduling. -/
  numbered : ∀ {i j e f}, Accepted times calls i e → Accepted times calls j f →
    (e.number < f.number ↔ i < j)
  /-- No task is started twice. -/
  once : ∀ {k l e}, Started times calls k e → Started times calls l e → k = l
  /-- No task is started before it is due. -/
  timely : ∀ {k now e}, calls[k]? = some (.take now) → Started times calls k e → e.task.due ≤ now
  /-- A task that is started is to be done before all others that wait. -/
  first : ∀ {k e f}, Started times calls k e → Waiting times calls k f → f ≠ e → e.Before f
  /-- A task that was overruled is not started any more. -/
  overruled : ∀ {j k e}, Overruled times calls j e → Started times calls k e → k < j
  /-- When nothing more is taken, the tasks that are due were started, except for those that were
  overruled before. -/
  reached : ∀ {i k now e}, calls[k]? = some (.take now) → (∀ f, ¬ Started times calls k f) →
    Accepted times calls i e → i < k → e.task.due ≤ now → Served times calls k e
  /-- The pending keys are those of the waiting tasks, each of which is the last one that was accepted
  for its key. -/
  pending : ∀ n key, key ∈ (before times calls n).pending ↔
    ∃ e, Waiting times calls n e ∧ e.task.key = key
  /-- The entries that are not cancelled are the waiting tasks. -/
  live : ∀ n e, e ∈ (before times calls n).entries ∧ e.cancelled = false ↔ Waiting times calls n e
  /-- Each pending key has one entry that is not cancelled. -/
  single : ∀ n, (before times calls n).pending.Nodup ∧
    (((before times calls n).entries.filter (! ·.cancelled)).map (·.task.key)).Perm
      (before times calls n).pending
  /-- After the shutdown nothing changes, no task is started, and none is accepted. -/
  closed : ∀ {j k}, calls[j]? = some .shutdown → j < k →
    before times calls k = (before times calls j).shutdown ∧
      (∀ e, ¬ Started times calls k e) ∧
      ∀ now key action delay?, (before times calls k).schedule now key action delay? = none

variable {times calls}

/-- What a call does to the queue. -/
theorem before_succ {n : Nat} {call : Call τ α} (h : calls[n]? = some call) :
    before times calls (n + 1) = call.apply (before times calls n) := by
  rw [before, before, List.take_add_one, h, after_append]
  rfl

/-- Behind the end of the run the queue stays as it is. -/
theorem before_succ_of_none {n : Nat} (h : calls[n]? = none) :
    before times calls (n + 1) = before times calls n := by
  rw [before, before, List.take_add_one, h]
  simp

theorem counter_before_le {i j : Nat} (h : i ≤ j) :
    (before times calls i).counter ≤ (before times calls j).counter := by
  induction j, h using Nat.le_induction with
  | base => exact Nat.le_refl _
  | succ j hij ih =>
      cases hcall : calls[j]? with
      | none => rwa [before_succ_of_none hcall]
      | some call =>
          rw [before_succ hcall]
          exact ih.trans (Call.counter_le_apply _ call)

/-- The times that were set stay. -/
theorem times_before (n : Nat) : (before times calls n).times = times := by
  induction n with
  | zero => rfl
  | succ n ih =>
      cases hcall : calls[n]? with
      | none => rwa [before_succ_of_none hcall]
      | some call => rwa [before_succ hcall, Call.times_apply]

/-- The queue is shut down from the shutdown on. -/
theorem stopped_before_iff {n : Nat} :
    (before times calls n).stopped = true ↔ ∃ j < n, calls[j]? = some .shutdown := by
  induction n with
  | zero => simp [before, after, start]
  | succ n ih =>
      have hsplit : (∃ j < n + 1, calls[j]? = some .shutdown) ↔
          (∃ j < n, calls[j]? = some .shutdown) ∨ calls[n]? = some .shutdown := by
        rw [Nat.exists_lt_succ_right]
      rw [hsplit, ← ih]
      cases hcall : calls[n]? with
      | none => simp [before_succ_of_none hcall]
      | some call => rw [before_succ hcall, Call.stopped_apply_iff, Option.some.injEq]

/-- Behind the end of a run stands the queue after all calls. -/
theorem before_length : before times calls calls.length = (start times).after calls := by
  rw [before, List.take_length]

variable {i j n : Nat} {e f : Entry τ α}

theorem Accepted.number_eq (h : Accepted times calls i e) :
    e.number = (before times calls i).counter := by
  obtain ⟨call, -, hadds⟩ := h
  exact hadds.counter.1

/-- The number of an accepted task is less than all that are given later. -/
theorem Accepted.number_lt (h : Accepted times calls i e) (hij : i < j) :
    e.number < (before times calls j).counter := by
  obtain ⟨call, hcall, hadds⟩ := h
  have hle : (before times calls (i + 1)).counter ≤ (before times calls j).counter :=
    counter_before_le hij
  rw [before_succ hcall, hadds.counter.2.2] at hle
  exact hle

/-- Tasks have their numbers in the order of scheduling. -/
theorem Accepted.number_lt_iff (he : Accepted times calls i e) (hf : Accepted times calls j f) :
    e.number < f.number ↔ i < j := by
  refine ⟨fun hless => ?_, fun hij => hf.number_eq ▸ he.number_lt hij⟩
  by_contra hnot
  have hle : (before times calls j).counter ≤ (before times calls i).counter :=
    counter_before_le (Nat.le_of_not_lt hnot)
  rw [← he.number_eq, ← hf.number_eq] at hle
  exact absurd hless hle.not_gt

/-- A task is accepted once. -/
theorem Accepted.eq (h : Accepted times calls i e) (h' : Accepted times calls j e) : i = j := by
  have hij := h.number_lt_iff h'
  have hji := h'.number_lt_iff h
  simp only [lt_irrefl, false_iff] at hij hji
  omega

/-! ### The tasks that wait -/

/-- At any time the queue holds some tasks. Which ones is said by `exists_holds`, whose proof needs
that tasks are started under numbers that were given before. -/
theorem exists_holds_before (times : Times τ) (calls : List (Call τ α)) (n : Nat) :
    ∃ es, (before times calls n).Holds es := by
  induction n with
  | zero => exact ⟨[], .start times⟩
  | succ n ih =>
      obtain ⟨es, hes⟩ := ih
      cases hcall : calls[n]? with
      | none =>
          rw [before_succ_of_none hcall]
          exact ⟨es, hes⟩
      | some call =>
          obtain ⟨es', hes', -⟩ := hes.apply call
          rw [before_succ hcall]
          exact ⟨es', hes'⟩

/-- A task that is started got its number before. -/
theorem Started.number_lt (h : Started times calls n e) :
    e.number < (before times calls n).counter := by
  obtain ⟨call, -, hstarts⟩ := h
  obtain ⟨es, hes⟩ := exists_holds_before times calls n
  obtain ⟨-, -, he, -⟩ := hes.of_starts hstarts
  exact hes.below e ((hes.live e).1 he).1

/-- A call takes out the task that it starts and those that it overrules, and a task that it accepts
is a new one. -/
theorem waiting_succ : Waiting times calls (n + 1) e ↔
    (Waiting times calls n e ∧ ¬ Started times calls n e ∧ ¬ Overruled times calls n e) ∨
      Accepted times calls n e := by
  constructor
  · rintro ⟨⟨i, hi, haccepted⟩, hafter⟩
    rcases Nat.lt_succ_iff_lt_or_eq.1 hi with hi | rfl
    · exact .inl ⟨⟨⟨i, hi, haccepted⟩, fun k hk => hafter k (by omega)⟩, hafter n (by omega)⟩
    · exact .inr haccepted
  · rintro (⟨⟨⟨i, hi, haccepted⟩, hafter⟩, hnow⟩ | haccepted)
    · refine ⟨⟨i, by omega, haccepted⟩, fun k hk => ?_⟩
      rcases Nat.lt_succ_iff_lt_or_eq.1 hk with hk | rfl
      · exact hafter k hk
      · exact hnow
    · refine ⟨⟨n, by omega, haccepted⟩, fun k hk => ⟨fun hstarted => ?_, ?_⟩⟩
      · -- It would have its number already.
        have hless := hstarted.number_lt
        have hle : (before times calls k).counter ≤ (before times calls n).counter :=
          counter_before_le (by omega)
        rw [haccepted.number_eq] at hless
        omega
      · rintro ⟨⟨i, hi, hearlier⟩, -⟩
        have := hearlier.eq haccepted
        omega

/-- Among the tasks that wait, a call drops those that it overrules. -/
theorem Waiting.overruled_iff {call : Call τ α} (h : Waiting times calls n e)
    (hcall : calls[n]? = some call) :
    Overruled times calls n e ↔ call.Drops (before times calls n) e := by
  constructor
  · rintro ⟨-, other, hother, hdrops⟩
    obtain rfl := Option.some.inj (hcall.symm.trans hother)
    exact hdrops
  · exact fun hdrops => ⟨h.1, call, hcall, hdrops⟩

/-- At any time the queue holds the tasks that wait. -/
theorem exists_holds (times : Times τ) (calls : List (Call τ α)) (n : Nat) :
    ∃ es, (before times calls n).Holds es ∧ ∀ e, e ∈ es ↔ Waiting times calls n e := by
  induction n with
  | zero =>
      refine ⟨[], .start times, fun e => ⟨fun he => absurd he List.not_mem_nil, ?_⟩⟩
      rintro ⟨⟨i, hi, -⟩, -⟩
      omega
  | succ n ih =>
      obtain ⟨es, hes, hwaiting⟩ := ih
      cases hcall : calls[n]? with
      | none =>
          rw [before_succ_of_none hcall]
          refine ⟨es, hes, fun e => ?_⟩
          simp [waiting_succ, hwaiting, Started, Overruled, Accepted, hcall]
      | some call =>
          obtain ⟨es', hes', hmem⟩ := hes.apply call
          rw [before_succ hcall]
          refine ⟨es', hes', fun e => ?_⟩
          rw [hmem, waiting_succ, hwaiting]
          have hstarted : Started times calls n e ↔ call.Starts (before times calls n) e := by
            simp [Started, hcall]
          have haccepted : Accepted times calls n e ↔ call.Adds (before times calls n) e := by
            simp [Accepted, hcall]
          rw [hstarted, haccepted]
          exact or_congr_left
            (and_congr_right fun h => and_congr_right fun _ => not_congr (h.overruled_iff hcall).symm)

/-- A task that is started waits until then. -/
theorem Started.waiting (h : Started times calls n e) : Waiting times calls n e := by
  obtain ⟨es, hes, hwaiting⟩ := exists_holds times calls n
  obtain ⟨call, -, hstarts⟩ := h
  obtain ⟨-, -, he, -⟩ := hes.of_starts hstarts
  exact (hwaiting e).1 he

/-! ### What follows -/

/-- No task is started twice. -/
theorem Started.le {k l : Nat} (hk : Started times calls k e) (hl : Started times calls l e) :
    k ≤ l := by
  by_contra hless
  exact (hk.waiting.2 l (Nat.lt_of_not_le hless)).1 hl

/-- A task that was overruled is not started any more. -/
theorem Started.lt_of_overruled {k : Nat} (hk : Started times calls k e)
    (hj : Overruled times calls j e) : k < j := by
  by_contra hnot
  rcases Nat.lt_or_eq_of_le (Nat.le_of_not_lt hnot) with hless | rfl
  · exact (hk.waiting.2 j hless).2 hj
  · -- A call that takes a task overrules none.
    obtain ⟨call, hcall, hstarts⟩ := hk
    obtain ⟨es, hes⟩ := exists_holds_before times calls j
    obtain ⟨now, rfl, -⟩ := hes.of_starts hstarts
    obtain ⟨-, other, hother, hdrops⟩ := hj
    obtain rfl := Option.some.inj (hcall.symm.trans hother)
    exact hdrops

/-- If no task is started although one could be, then none that waits is due. -/
theorem Waiting.lt_due {k : Nat} {now : τ} (h : Waiting times calls k e)
    (hcall : calls[k]? = some (.take now)) (hidle : ∀ f, ¬ Started times calls k f) :
    now < e.task.due := by
  obtain ⟨es, hes, hwaiting⟩ := exists_holds times calls k
  obtain ⟨turn, q', hnext⟩ : ∃ turn q', (before times calls k).next now = (turn, q') := ⟨_, _, rfl⟩
  cases turn with
  | run f => exact absurd ⟨_, hcall, congrArg Prod.fst hnext⟩ (hidle f)
  | wait w => exact (hes.of_wait hnext).1 e ((hwaiting e).2 h)
  | late time => exact (hes.of_late hnext).1 e ((hwaiting e).2 h)

/-- When nothing more is taken, the tasks that are due were started, except for those that were
overruled before. -/
theorem Accepted.served {i k : Nat} {now : τ} (h : Accepted times calls i e) (hik : i < k)
    (hcall : calls[k]? = some (.take now)) (hidle : ∀ f, ¬ Started times calls k f)
    (hdue : e.task.due ≤ now) : Served times calls k e := by
  constructor
  · rintro ⟨l, -, hstarted⟩ ⟨j, -, hoverruled, hnot⟩
    exact hnot l (hstarted.lt_of_overruled hoverruled) hstarted
  · intro hfree
    by_contra hnone
    have hstarted : ∀ l < k, ¬ Started times calls l e := fun l hl h => hnone ⟨l, hl, h⟩
    have hwaiting : Waiting times calls k e := by
      refine ⟨⟨i, hik, h⟩, fun l hl => ⟨hstarted l hl, fun hoverruled => ?_⟩⟩
      exact hfree ⟨l, hl, hoverruled, fun l' hl' => hstarted l' (hl'.trans hl)⟩
    exact absurd hdue (hwaiting.lt_due hcall hidle).not_ge

/-- A call that neither starts nor overrules the task makes no difference. -/
theorem Served.succ (h : Served times calls n e) (hstarted : ¬ Started times calls n e)
    (hoverruled : ¬ Overruled times calls n e) : Served times calls (n + 1) e := by
  constructor
  · rintro ⟨k, hk, hstart⟩ ⟨j, hj, hrule, hnot⟩
    have hkn : k ≠ n := fun heq => hstarted (heq ▸ hstart)
    have hjn : j ≠ n := fun heq => hoverruled (heq ▸ hrule)
    exact h.1 ⟨k, by omega, hstart⟩ ⟨j, by omega, hrule, hnot⟩
  · intro hfree
    obtain ⟨k, hk, hstart⟩ := h.2 fun ⟨j, hj, hrule⟩ => hfree ⟨j, Nat.lt_succ_of_lt hj, hrule⟩
    exact ⟨k, Nat.lt_succ_of_lt hk, hstart⟩

/-- When a run ends with nothing more to be taken, the tasks that are due were started in the run,
except for those that were overruled before. -/
theorem Accepted.served_of_last {init : List (Call τ α)} {now : τ} {w : Wait τ}
    (hlast : calls = init ++ [.take now]) (hidle : (((start times).after init).next now).1 = .wait w)
    (h : Accepted times calls i e) (hdue : e.task.due ≤ now) :
    Served times calls calls.length e := by
  have hcall : calls[init.length]? = some (.take now) := by simp [hlast]
  have hlength : calls.length = init.length + 1 := by simp [hlast]
  have hbefore : before times calls init.length = (start times).after init := by
    simp [before, hlast]
  -- The last call neither adds nor starts nor drops anything.
  have hstarts : ∀ f, ¬ Started times calls init.length f := by
    rintro f ⟨call, hsome, hstarts⟩
    obtain rfl := Option.some.inj (hcall.symm.trans hsome)
    rw [hbefore, Call.Starts, hidle] at hstarts
    cases hstarts
  have hoverruled : ¬ Overruled times calls init.length e := by
    rintro ⟨-, call, hsome, hdrops⟩
    obtain rfl := Option.some.inj (hcall.symm.trans hsome)
    exact hdrops
  have hi : i < init.length := by
    obtain ⟨call, hsome, hadds⟩ := h
    have hless : i < calls.length := (List.getElem?_eq_some_iff.1 hsome).1
    refine Nat.lt_of_le_of_ne (by omega) ?_
    rintro rfl
    obtain rfl := Option.some.inj (hcall.symm.trans hsome)
    exact hadds
  rw [hlength]
  exact (h.served hi hcall hstarts hdue).succ (hstarts e) hoverruled

/-- After the shutdown the queue stays as it is. -/
theorem before_of_shutdown {k : Nat} (hshutdown : calls[j]? = some .shutdown) (hjk : j < k) :
    before times calls k = (before times calls j).shutdown := by
  induction k, hjk using Nat.le_induction with
  | base => exact before_succ hshutdown
  | succ k hk ih =>
      cases hcall : calls[k]? with
      | none => rw [before_succ_of_none hcall, ih]
      | some call =>
          rw [before_succ hcall, ih]
          exact Call.apply_of_stopped rfl rfl rfl call

/-- Every run of calls is lawful. -/
theorem lawful (times : Times τ) (calls : List (Call τ α)) : Lawful times calls where
  opened := by
    intro n now key action delay?
    rw [isSome_schedule_iff, ← Bool.not_eq_true, stopped_before_iff]
    push Not
    rfl
  scheduled := by
    rintro i now key action delay? e hcall ⟨call, hsome, hadds⟩
    obtain rfl := Option.some.inj (hcall.symm.trans hsome)
    rw [hadds.2, entry, times_before]
  accepted hstarted := hstarted.waiting.1
  numbered := Accepted.number_lt_iff
  once hk hl := Nat.le_antisymm (hk.le hl) (hl.le hk)
  timely := by
    rintro k now e hcall ⟨call, hsome, hstarts⟩
    obtain ⟨es, hes⟩ := exists_holds_before times calls k
    obtain ⟨now, rfl, -, hdue, -⟩ := hes.of_starts hstarts
    obtain rfl := Call.take.inj (Option.some.inj (hcall.symm.trans hsome))
    exact hdue
  first := by
    rintro k e f ⟨call, -, hstarts⟩ hf hne
    obtain ⟨es, hes, hwaiting⟩ := exists_holds times calls k
    obtain ⟨-, -, -, -, hfirst⟩ := hes.of_starts hstarts
    exact hfirst f ((hwaiting f).2 hf) hne
  overruled hj hk := hk.lt_of_overruled hj
  reached hcall hidle h hik hdue := h.served hik hcall hidle hdue
  pending := by
    intro n key
    obtain ⟨es, hes, hwaiting⟩ := exists_holds times calls n
    simp only [hes.pending, List.mem_map, hwaiting]
  live := by
    intro n e
    obtain ⟨es, hes, hwaiting⟩ := exists_holds times calls n
    rw [← hes.live, hwaiting]
  single := by
    intro n
    obtain ⟨es, hes⟩ := exists_holds_before times calls n
    rw [hes.pending]
    exact ⟨hes.keys, hes.perm.map _⟩
  closed := by
    intro j k hshutdown hjk
    have hqueue : before times calls k = (before times calls j).shutdown :=
      before_of_shutdown hshutdown hjk
    refine ⟨hqueue, ?_, fun now key action delay? => ?_⟩
    · rintro e ⟨call, -, hstarts⟩
      rw [hqueue] at hstarts
      obtain ⟨-, -, he, -⟩ := (Holds.shutdown _).of_starts hstarts
      exact List.not_mem_nil he
    · rw [hqueue]
      rfl

end Runs

end Npl.Queue
