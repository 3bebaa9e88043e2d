import Mathlib.Algebra.Order.Group.Defs
import Npl.Proofs.Timer.Runs

/-!
# The worker

One worker does the tasks of a timer. While it is there, nothing that is due is left behind once the
clock went on. It ends if the next task is due too late to be waited for, or if a task ends it. No task
is started any more then, although tasks go on being accepted.

A worker does not end if no task ends it and no task is put off for longer than can be waited for.

## Main definitions

* `Queue.EndsIn` — some of the calls ends the worker.
* `Queue.Obeys` — nothing is taken once the worker ended.
* `Stage.Lawful` — what holds of a run of inputs.
* `Stage.Input.Calm` — nothing in an input can end the worker.

## Main results

* `Stage.ended_followAll` — the worker ends with a call that ends it, and takes nothing after that.
* `Stage.lawful_of_run` — every run is lawful.
* `Stage.not_ended_of_calm` — the worker does not end in a calm run.
-/

namespace Npl

/-! ### Calls of a worker -/

namespace Queue

variable {τ α : Type} [LinearOrder τ] [Add τ] [Sub τ] {q : Queue τ α} {ended : Prop}
  {calls calls' : List (Call τ α)}

/-- Some of the calls ends the worker. -/
def EndsIn (q : Queue τ α) : List (Call τ α) → Prop
  | [] => False
  | call :: calls => call.Ends q ∨ EndsIn (call.apply q) calls

/-- Nothing is taken once the worker ended. -/
def Obeys (q : Queue τ α) (ended : Prop) : List (Call τ α) → Prop
  | [] => True
  | call :: calls =>
    (ended → ∀ now, call ≠ .take now) ∧ Obeys (call.apply q) (ended ∨ call.Ends q) calls

theorem endsIn_append :
    q.EndsIn (calls ++ calls') ↔ q.EndsIn calls ∨ (q.after calls).EndsIn calls' := by
  induction calls generalizing q with
  | nil => simp [EndsIn, after]
  | cons call calls ih =>
      rw [List.cons_append, EndsIn, EndsIn, ih, or_assoc]
      rfl

theorem obeys_append : q.Obeys ended (calls ++ calls') ↔
    q.Obeys ended calls ∧ (q.after calls).Obeys (ended ∨ q.EndsIn calls) calls' := by
  induction calls generalizing q ended with
  | nil => simp [EndsIn, Obeys, after]
  | cons call calls ih =>
      rw [List.cons_append, Obeys, Obeys, EndsIn, ih, and_assoc, or_assoc]
      rfl

/-- Where nothing is taken there is nothing to obey. -/
theorem obeys_of_ne_take (h : ∀ call ∈ calls, ∀ now, call ≠ .take now) : q.Obeys ended calls := by
  induction calls generalizing q ended with
  | nil => trivial
  | cons call calls ih =>
      rw [List.forall_mem_cons] at h
      exact ⟨fun _ => h.1, ih h.2⟩

theorem endsIn_iff : q.EndsIn calls ↔
    ∃ (j : Nat) (call : Call τ α), calls[j]? = some call ∧ call.Ends (q.after (calls.take j)) := by
  induction calls generalizing q with
  | nil => simp [EndsIn]
  | cons call calls ih =>
      rw [EndsIn, ih]
      constructor
      · rintro (h | ⟨j, call', hcall, h⟩)
        · exact ⟨0, call, rfl, h⟩
        · exact ⟨j + 1, call', hcall, h⟩
      · rintro ⟨_ | j, call', hcall, h⟩
        · obtain rfl := Option.some.inj hcall
          exact .inl h
        · exact .inr ⟨j, call', hcall, h⟩

/-- What is taken is taken by a worker that did not end before. -/
theorem Obeys.not_ends (h : q.Obeys ended calls) {k : Nat} {now : τ}
    (htake : calls[k]? = some (.take now)) :
    ¬ ended ∧ ∀ j < k, ∀ call, calls[j]? = some call → ¬ call.Ends (q.after (calls.take j)) := by
  induction calls generalizing q ended k with
  | nil => simp at htake
  | cons call calls ih =>
      obtain ⟨hfirst, hrest⟩ := h
      cases k with
      | zero =>
          obtain rfl := Option.some.inj htake
          exact ⟨fun hended => hfirst hended now rfl, fun j hj => absurd hj (Nat.not_lt_zero j)⟩
      | succ k =>
          obtain ⟨hnot, hlater⟩ := ih hrest htake
          refine ⟨fun hended => hnot (.inl hended), fun j hj call' hcall' hends => ?_⟩
          cases j with
          | zero =>
              obtain rfl := Option.some.inj hcall'
              exact hnot (.inr hends)
          | succ j => exact hlater j (Nat.lt_of_succ_lt_succ hj) call' hcall' hends

theorem endsIn_start_iff {times : Times τ} :
    (start times).EndsIn calls ↔ ∃ j, Ended times calls j :=
  endsIn_iff

/-- After the end of the worker nothing is taken. -/
theorem Obeys.ne_take {times : Times τ} (h : (start times).Obeys False calls) {j k : Nat}
    (hended : Ended times calls j) (hjk : j < k) (now : τ) : calls[k]? ≠ some (.take now) := by
  intro htake
  obtain ⟨call, hcall, hends⟩ := hended
  exact (h.not_ends htake).2 j hjk call hcall hends

end Queue

namespace Stage

open Queue (Call Accepted Started Overruled Served Ended)

section

variable {τ : Type} [LinearOrder τ] [Add τ] [Sub τ]

/-! ### The end of the worker -/

omit [Sub τ] in
mutual

/-- A script takes no task. -/
theorem ne_take_of_mem_calls (g : Stage τ) (s : Script τ) :
    ∀ call ∈ g.calls s, ∀ now, call ≠ .take now := by
  cases s with
  | note | notePending | fail | sleep | abort | shutdown | schedule => simp [calls]
  | sequence ss =>
      simp only [calls]
      exact ne_take_of_mem_callsAll g ss

/-- Several scripts take no task. -/
theorem ne_take_of_mem_callsAll (g : Stage τ) (ss : List (Script τ)) :
    ∀ call ∈ g.callsAll ss, ∀ now, call ≠ .take now := by
  cases ss with
  | nil => simp [callsAll]
  | cons s ss =>
      simp only [callsAll, List.mem_append]
      rintro call (hcall | hcall)
      · exact ne_take_of_mem_calls g s call hcall
      · split at hcall
        · exact ne_take_of_mem_callsAll _ ss call hcall
        · exact absurd hcall List.not_mem_nil

end

mutual

/-- A script does not change whether there is a worker, and tells whether it ends the worker. -/
theorem ended_run (g : Stage τ) (s : Script τ) :
    (g.run s).1.ended = g.ended ∧ ((g.run s).2 = .aborted ↔ g.timer.EndsIn (g.calls s)) := by
  cases s with
  | note | notePending | fail | sleep | abort | shutdown =>
      simp [run, calls, tell, shutdown, Queue.EndsIn, Call.Ends]
  | schedule key s delay? =>
      simp only [run, calls, schedule]
      cases g.timer.schedule g.now key s delay? <;> simp [Queue.EndsIn, Call.Ends]
  | sequence ss =>
      simp only [run, calls]
      exact ended_runAll g ss

/-- Several scripts do not change whether there is a worker, and tell whether they end the worker. -/
theorem ended_runAll (g : Stage τ) (ss : List (Script τ)) :
    (g.runAll ss).1.ended = g.ended ∧
      ((g.runAll ss).2 = .aborted ↔ g.timer.EndsIn (g.callsAll ss)) := by
  cases ss with
  | nil => simp [runAll, callsAll, Queue.EndsIn]
  | cons s ss =>
      obtain ⟨hended, hends⟩ := ended_run g s
      have htimer := timer_run g s
      simp only [runAll, callsAll, Queue.endsIn_append, ← hends, ← htimer]
      obtain ⟨g', outcome, hrun⟩ : ∃ g' outcome, g.run s = (g', outcome) := ⟨_, _, rfl⟩
      rw [hrun] at hended ⊢
      cases outcome with
      | done =>
          obtain ⟨hended', hends'⟩ := ended_runAll g' ss
          simpa [hends', ← hended] using hended'
      | failed cause => simpa [Queue.EndsIn] using hended
      | aborted => simpa using hended

end

theorem ended_perform (g : Stage τ) (task : Task τ (Script τ)) :
    (g.perform task).ended = true ↔
      g.ended = true ∨ g.timer.EndsIn (g.calls task.action) := by
  obtain ⟨hended, hends⟩ := ended_run g task.action
  rw [← hends, perform]
  obtain ⟨g', outcome, hrun⟩ : ∃ g' outcome, g.run task.action = (g', outcome) := ⟨_, _, rfl⟩
  rw [hrun] at hended ⊢
  cases outcome <;> simp [tell, ← hended]

/-- While tasks are done, the worker ends with a call that ends it, and takes nothing after that. -/
theorem ended_settle (g : Stage τ) :
    (g.settle.1.ended = true ↔ g.ended = true ∨ g.timer.EndsIn g.settleCalls) ∧
      g.timer.Obeys (g.ended = true) g.settleCalls := by
  induction g using settle.induct with
  | case1 g h =>
      obtain ⟨hsettle, hcalls⟩ := settle_of_ended h
      simp [hsettle, hcalls, Queue.EndsIn, Queue.Obeys]
  | case2 g hworks w timer h =>
      obtain ⟨hsettle, hcalls⟩ := settle_of_wait (by simpa using hworks) h
      simp [hsettle, hcalls, Queue.EndsIn, Queue.Obeys, Call.Ends, h, hworks]
  | case3 g hworks time timer h =>
      obtain ⟨hsettle, hcalls⟩ := settle_of_late (by simpa using hworks) h
      simp [hsettle, hcalls, Queue.EndsIn, Queue.Obeys, Call.Ends, h, hworks]
  | case4 g hworks e timer h ih =>
      obtain ⟨hsettle, hcalls⟩ := settle_of_run (by simpa using hworks) h
      obtain ⟨hended, hobeys⟩ := ih
      set mid : Stage τ := { g with timer } with hmid
      have hperform : (mid.perform e.task).ended = true ↔
          timer.EndsIn (mid.calls e.task.action) := by
        simpa [hmid, hworks] using ended_perform mid e.task
      have htimer : (mid.perform e.task).timer = timer.after (mid.calls e.task.action) :=
        timer_perform mid e.task
      have hends : ¬ (Call.take g.now).Ends g.timer := by simp [Call.Ends, h]
      have happly : (Call.take g.now).apply g.timer = timer := by simp [Call.apply, h]
      rw [hperform, htimer] at hended hobeys
      rw [hsettle, hcalls, hended, Queue.EndsIn, Queue.Obeys, happly, Queue.endsIn_append,
        Queue.obeys_append]
      simp only [hworks, hends, false_or]
      exact ⟨by simp, fun hnot => absurd hnot (by simp),
        Queue.obeys_of_ne_take (ne_take_of_mem_calls mid e.task.action), by simpa using hobeys⟩

theorem ended_follow (g : Stage τ) (input : Input τ) :
    ((g.follow input).ended = true ↔ g.ended = true ∨ g.timer.EndsIn (g.inputCalls input)) ∧
      g.timer.Obeys (g.ended = true) (g.inputCalls input) := by
  cases input with
  | schedule key s delay? =>
      simp only [follow, inputCalls, schedule]
      cases g.timer.schedule g.now key s delay? <;>
        simp [Queue.EndsIn, Queue.Obeys, Call.Ends]
  | advance time => exact ended_settle { g with now := g.now + time }
  | shutdown => simp [follow, inputCalls, shutdown, Queue.EndsIn, Queue.Obeys, Call.Ends]

/-- The worker ends with a call that ends it, and takes nothing after that. -/
theorem ended_followAll (g : Stage τ) (inputs : List (Input τ)) :
    ((g.followAll inputs).ended = true ↔ g.ended = true ∨ g.timer.EndsIn (g.history inputs)) ∧
      g.timer.Obeys (g.ended = true) (g.history inputs) := by
  induction inputs generalizing g with
  | nil => simp [followAll, history, Queue.EndsIn, Queue.Obeys]
  | cons input inputs ih =>
      obtain ⟨hended, hobeys⟩ := ended_follow g input
      obtain ⟨hended', hobeys'⟩ := ih (g.follow input)
      rw [hended, timer_follow] at hended' hobeys'
      rw [history, Queue.endsIn_append, Queue.obeys_append, ← or_assoc]
      exact ⟨hended', hobeys, hobeys'⟩

/-! ### The law of a run -/

/-- The stage accepts no task any more, and only its clock goes on. -/
def Closed (g : Stage τ) : Prop :=
  (∀ key s delay?, g.schedule key s delay? = (g, some .stopped)) ∧
    ∀ time, g.advance time =
      ({ g with now := g.now + time }, if g.ended then none else some .stopped)

/-- What holds of a run of inputs. -/
structure Lawful (times : Queue.Times τ) (now : τ) (inputs : List (Input τ)) : Prop where
  /-- The timer changed by the calls of the run only. -/
  timer : ((start times now).followAll inputs).timer =
    (Queue.start times).after ((start times now).history inputs)
  /-- After the clock went on, and if no call ended the worker, all tasks that are due were started,
  except for those that were overruled before. -/
  reached : ∀ {time}, inputs.getLast? = some (.advance time) →
    (∀ j, ¬ Ended times ((start times now).history inputs) j) →
    ∀ {i e}, Accepted times ((start times now).history inputs) i e →
      e.task.due ≤ ((start times now).followAll inputs).now →
      Served times ((start times now).history inputs) ((start times now).history inputs).length e
  /-- After a call that ended the worker no task is started, whether it is due or not. -/
  ended : ∀ {j k}, Ended times ((start times now).history inputs) j → j < k →
    ∀ e, ¬ Started times ((start times now).history inputs) k e
  /-- Whatever happened before, a task that fails changes nothing for the others. -/
  failing : ∀ (g : Stage τ) task, g.FailsAlone task
  /-- After the shutdown nothing is accepted and nothing is done. -/
  closed : .shutdown ∈ (start times now).history inputs →
    ((start times now).followAll inputs).Closed

/-- A timer that was shut down accepts no task and does nothing. -/
theorem closed_of_stopped {g : Stage τ} (h : g.timer.stopped = true) : g.Closed := by
  refine ⟨fun key s delay? => by simp [schedule, Queue.schedule, h], fun time => ?_⟩
  set late : Stage τ := { g with now := g.now + time } with hlate
  change late.settle = (late, if g.ended then none else some .stopped)
  by_cases hended : g.ended = true
  · rw [if_pos hended, (settle_of_ended (g := late) hended).1]
  · have hnext : late.timer.next late.now = (.wait .stopped, late.timer) := by
      simp [Queue.next, hlate, h]
    rw [if_neg hended, (settle_of_wait (g := late) (by simpa using hended) hnext).1]

/-- While there is a worker, the last call finds nothing that is due. -/
theorem settleCalls_of_works (g : Stage τ) (hworks : g.settle.1.ended = false) :
    ∃ calls w, g.settleCalls = calls ++ [.take g.settle.1.now] ∧
      ((g.timer.after calls).next g.settle.1.now).1 = .wait w := by
  induction g using settle.induct with
  | case1 g h =>
      rw [(settle_of_ended h).1] at hworks
      exact absurd h (by simpa using hworks)
  | case2 g hnot w timer h =>
      obtain ⟨hsettle, hcalls⟩ := settle_of_wait (by simpa using hnot) h
      rw [hsettle, hcalls]
      exact ⟨[], w, rfl, by simp [Queue.after, h]⟩
  | case3 g hnot time timer h =>
      rw [(settle_of_late (by simpa using hnot) h).1] at hworks
      exact absurd hworks (by simp)
  | case4 g hnot e timer h ih =>
      obtain ⟨hsettle, hcalls⟩ := settle_of_run (by simpa using hnot) h
      rw [hsettle] at hworks ⊢
      obtain ⟨calls, w, hlast, hidle⟩ := ih hworks
      refine ⟨.take g.now :: (Stage.calls { g with timer } e.task.action ++ calls), w, ?_, ?_⟩
      · rw [hcalls, hlast, List.cons_append, List.append_assoc]
      · rw [after_take h, hidle]

/-- After the clock went on, and while there is a worker, the last call found nothing that is due. -/
theorem history_of_advance (g : Stage τ) (inputs : List (Input τ)) (time : τ)
    (hworks : (g.followAll (inputs ++ [.advance time])).ended = false) :
    ∃ calls w, g.history (inputs ++ [.advance time]) =
        calls ++ [.take (g.followAll (inputs ++ [.advance time])).now] ∧
      ((g.timer.after calls).next (g.followAll (inputs ++ [.advance time])).now).1 = .wait w := by
  set mid := g.followAll inputs with hmid
  have hhistory : g.history (inputs ++ [.advance time]) =
      g.history inputs ++ settleCalls { mid with now := mid.now + time } := by
    simp [history_append, history, inputCalls, hmid]
  have hfollow : g.followAll (inputs ++ [.advance time]) = (mid.advance time).1 := by
    simp [followAll, follow, hmid]
  have htimer : mid.timer = g.timer.after (g.history inputs) := timer_followAll g inputs
  rw [hfollow] at hworks
  obtain ⟨calls, w, hcalls, hidle⟩ :=
    settleCalls_of_works { mid with now := mid.now + time } hworks
  refine ⟨g.history inputs ++ calls, w, ?_, ?_⟩
  · rw [hhistory, hcalls, hfollow, List.append_assoc]
    rfl
  · rw [Queue.after_append, ← htimer, hfollow]
    exact hidle

/-- Every run of calls is lawful, whatever the tasks are to do, and so is every run of inputs. -/
theorem lawful_of_run {α : Type} (times : Queue.Times τ) (now : τ) (calls : List (Call τ α))
    (inputs : List (Input τ)) : Queue.Lawful times calls ∧ Lawful times now inputs := by
  obtain ⟨hended, hobeys⟩ := ended_followAll (start times now) inputs
  refine ⟨Queue.lawful times calls, timer_followAll _ _, ?_, ?_, failsAlone, ?_⟩
  · intro time hlast hworks i e haccepted hdue
    have hnot : ((start times now).followAll inputs).ended = false := by
      rw [Bool.eq_false_iff, ne_eq, hended]
      rintro (hstart | hends)
      · cases hstart
      · obtain ⟨j, hj⟩ := Queue.endsIn_start_iff.1 hends
        exact hworks j hj
    obtain ⟨earlier, rfl⟩ := List.getLast?_eq_some_iff.1 hlast
    obtain ⟨init, w, hcalls, hidle⟩ := history_of_advance (start times now) earlier time hnot
    exact haccepted.served_of_last hcalls hidle hdue
  · rintro j k hj hjk e ⟨call, hcall, hstarts⟩
    obtain ⟨es, hes⟩ := Queue.exists_holds_before times ((start times now).history inputs) k
    obtain ⟨now', rfl, -⟩ := hes.of_starts hstarts
    have hobeys : (Queue.start times).Obeys False ((start times now).history inputs) := by
      simpa [start] using hobeys
    exact hobeys.ne_take hj hjk now' hcall
  · intro hshutdown
    obtain ⟨j, hj⟩ := List.mem_iff_getElem?.1 hshutdown
    have hlength := (List.getElem?_eq_some_iff.1 hj).1
    refine closed_of_stopped ?_
    rw [timer_followAll]
    change ((Queue.start times).after ((start times now).history inputs)).stopped = true
    rw [← Queue.before_length, Queue.before_of_shutdown hj hlength]
    rfl

/-- A task that takes its own key again and fails. -/
def retry : Script Int :=
  .sequence [.schedule "a" (.note "later") (some 2), .fail ⟨"RuntimeError", "boom"⟩]

/-- A task is due after a time of 5 if nothing else is said, and none can be waited for longer than
100. -/
def hasty : Queue.Times Int :=
  ⟨5, 100⟩

/-- A task whose place is taken, one that takes its own key again, and one that is due as early. In the
end there is one that is due too late, and behind it one that is due soon. -/
def burst : List (Input Int) :=
  [.schedule "a" (.note "first") none, .schedule "a" retry none, .schedule "b" (.note "b") none,
    .advance 5, .schedule "z" (.note "z") (some 120), .advance 2,
    .schedule "b" (.note "again") (some 1), .advance 5]

/-- What is asked of the timer then. -/
def burstCalls : List (Call Int (Script Int)) :=
  [.schedule 0 "a" (.note "first") none, .schedule 0 "a" retry none,
    .schedule 0 "b" (.note "b") none, .take 5, .schedule 5 "a" (.note "later") (some 2), .take 5,
    .take 5, .schedule 5 "z" (.note "z") (some 120), .take 7, .take 7,
    .schedule 7 "b" (.note "again") (some 1)]

theorem history_burst : (start hasty 0).history burst = burstCalls := by
  cbv

/-- Of two tasks of one key the first one is never started, and the second one is started once. The
last task is accepted and due, and not started, as the worker ended because of the one before it. -/
theorem lawful_of_run_burst :
    (∀ k, ¬ Started hasty ((start hasty 0).history burst) k ⟨0, ⟨"a", 5, .note "first"⟩, false⟩) ∧
      (∀ k, Started hasty ((start hasty 0).history burst) k ⟨1, ⟨"a", 5, retry⟩, false⟩ ↔ k = 3) ∧
      Accepted hasty ((start hasty 0).history burst) 10 ⟨5, ⟨"b", 8, .note "again"⟩, false⟩ ∧
      ((start hasty 0).followAll burst).now = 12 ∧
      ∀ k, ¬ Started hasty ((start hasty 0).history burst) k ⟨5, ⟨"b", 8, .note "again"⟩, false⟩ := by
  obtain ⟨hcalls, hrun⟩ := lawful_of_run hasty 0 burstCalls burst
  have hended := @hrun.ended
  rw [history_burst] at hended ⊢
  have hfirst : Accepted hasty burstCalls 0 ⟨0, ⟨"a", 5, .note "first"⟩, false⟩ :=
    ⟨.schedule 0 "a" (.note "first") none, rfl, rfl, rfl⟩
  have hoverruled : Overruled hasty burstCalls 1 ⟨0, ⟨"a", 5, .note "first"⟩, false⟩ :=
    ⟨⟨0, Nat.one_pos, hfirst⟩, .schedule 0 "a" retry none, rfl, rfl, rfl⟩
  have hsecond : Started hasty burstCalls 3 ⟨1, ⟨"a", 5, retry⟩, false⟩ := ⟨.take 5, rfl, rfl⟩
  have hlast : Accepted hasty burstCalls 10 ⟨5, ⟨"b", 8, .note "again"⟩, false⟩ :=
    ⟨.schedule 7 "b" (.note "again") (some 1), rfl, rfl, rfl⟩
  have hlate : Ended hasty burstCalls 9 := ⟨.take 7, rfl, 118, rfl⟩
  refine ⟨fun k hk => ?_, fun k => ⟨fun hk => hcalls.once hk hsecond, fun heq => heq ▸ hsecond⟩,
    hlast, by cbv, fun k hk => ?_⟩
  · -- It could only be the first call, which starts nothing.
    obtain rfl : k = 0 := Nat.lt_one_iff.1 (hcalls.overruled hoverruled hk)
    obtain ⟨call, hcall, hstarts⟩ := hk
    obtain rfl := Option.some.inj hcall
    exact hstarts
  · obtain ⟨i, hik, haccepted⟩ := hcalls.accepted hk
    obtain rfl := haccepted.eq hlast
    exact hended hlate (by omega) _ hk

end

end Stage

/-! ### Calm runs -/

section Calm

variable {τ : Type} [AddCommGroup τ] [LinearOrder τ]

namespace Script

mutual

/-- Nothing that the script does can end a worker that can wait for the given time. -/
def Calm (longest : τ) : Script τ → Prop
  | .abort => False
  | .schedule _ s delay? => Calm longest s ∧ ∀ delay ∈ delay?, delay ≤ longest
  | .sleep time => 0 ≤ time
  | .sequence ss => AllCalm longest ss
  | .note _ | .notePending | .fail _ | .shutdown => True

/-- Nothing that the scripts do can end a worker that can wait for the given time. -/
def AllCalm (longest : τ) : List (Script τ) → Prop
  | [] => True
  | s :: ss => Calm longest s ∧ AllCalm longest ss

end

end Script

namespace Queue

/-- No task is due later than can be waited for, and none can end the worker. -/
structure Calm (q : Queue τ (Script τ)) (now : τ) : Prop where
  delay : q.times.delay ≤ q.times.longest
  due : ∀ e ∈ q.entries, e.task.due ≤ now + q.times.longest
  action : ∀ e ∈ q.entries, e.task.action.Calm q.times.longest

variable {q q' : Queue τ (Script τ)} {now now' : τ}

theorem Calm.shutdown (h : q.Calm now) : q.shutdown.Calm now :=
  ⟨h.delay, by simp [Queue.shutdown], by simp [Queue.shutdown]⟩

/-- What is left behind of calm entries is calm. -/
theorem Calm.sublist (h : q.Calm now) {numbers : Keyed Nat}
    {entries : List (Entry τ (Script τ))} (hsub : entries.Sublist q.entries) :
    Calm { q with numbers, entries } now :=
  ⟨h.delay, fun e he => h.due e (hsub.subset he), fun e he => h.action e (hsub.subset he)⟩

/-- A task that is taken from a calm queue is calm, and so is the queue that is left. -/
theorem Calm.of_run (h : q.Calm now) {e : Entry τ (Script τ)} (hnext : q.next now = (.run e, q')) :
    q'.Calm now ∧ q'.times = q.times ∧ e.task.action.Calm q.times.longest := by
  obtain ⟨-, -, numbers, rest, hfront, rfl, -⟩ := of_next_run hnext
  have hsub : (e :: rest).Sublist q.entries := hfront ▸ List.dropWhile_sublist _
  exact ⟨h.sublist ((List.sublist_cons_self e rest).trans hsub), rfl,
    h.action e (hsub.subset List.mem_cons_self)⟩

variable [IsOrderedAddMonoid τ]

/-- As time passes the tasks are due sooner. -/
theorem Calm.later (h : q.Calm now) (hle : now ≤ now') : q.Calm now' where
  delay := h.delay
  due := fun e he => (h.due e he).trans (add_le_add_left hle _)
  action := h.action

theorem Calm.schedule (h : q.Calm now) {key : String} {s : Script τ} {delay? : Option τ}
    (hs : s.Calm q.times.longest) (hdelay : ∀ delay ∈ delay?, delay ≤ q.times.longest)
    (hschedule : q.schedule now key s delay? = some q') :
    q'.Calm now ∧ q'.times = q.times := by
  unfold Queue.schedule at hschedule
  split at hschedule
  · simp at hschedule
  · obtain rfl := Option.some.inj hschedule
    have hdelay' : delay?.getD q.times.delay ≤ q.times.longest := by
      cases delay? with
      | none => exact h.delay
      | some delay => exact hdelay delay rfl
    -- A cancelled task is due when it was, and would do what it would have done.
    have hold : ∀ e ∈ cancelNumber (q.numbers.get? key) q.entries,
        ∃ f ∈ q.entries, f.task = e.task := by
      intro e he
      obtain ⟨f, hf, rfl⟩ := List.mem_map.1 he
      exact ⟨f, hf, by split <;> rfl⟩
    refine ⟨⟨h.delay, fun e he => ?_, fun e he => ?_⟩, rfl⟩
    · rcases mem_enqueue.1 he with rfl | he
      · exact add_le_add_right hdelay' now
      · obtain ⟨f, hf, htask⟩ := hold e he
        exact htask ▸ h.due f hf
    · rcases mem_enqueue.1 he with rfl | he
      · exact hs
      · obtain ⟨f, hf, htask⟩ := hold e he
        exact htask ▸ h.action f hf

/-- All tasks of a calm queue can be waited for. -/
theorem Calm.not_late (h : q.Calm now) (time : τ) : q.next now ≠ (.late time, q') := by
  intro hnext
  obtain ⟨-, -, e, rest, hfront, -, rfl, hlong⟩ := of_next_late hnext
  have hmem : e ∈ q.entries := (List.dropWhile_sublist _).subset (hfront ▸ List.mem_cons_self)
  exact absurd (sub_le_iff_le_add'.2 (h.due e hmem)) hlong.not_ge

end Queue

namespace Stage

/-- Nothing that waits on the stage can end the worker, which is still there. -/
structure Calm (g : Stage τ) (longest : τ) : Prop where
  timer : g.timer.Calm g.now
  longest : g.timer.times.longest = longest
  works : g.ended = false

variable {longest : τ}

mutual

/-- A calm script leaves a calm stage calm. -/
theorem Calm.run [IsOrderedAddMonoid τ] {g : Stage τ} (h : g.Calm longest) {s : Script τ}
    (hs : s.Calm longest) : (g.run s).1.Calm longest ∧ (g.run s).2 ≠ .aborted := by
  cases s with
  | note | notePending | fail => exact ⟨⟨h.timer, h.longest, h.works⟩, by simp [Stage.run]⟩
  | abort => exact hs.elim
  | sleep time =>
      exact ⟨⟨h.timer.later (le_add_of_nonneg_right hs), h.longest, h.works⟩, by simp [Stage.run]⟩
  | shutdown => exact ⟨⟨h.timer.shutdown, h.longest, h.works⟩, by simp [Stage.run]⟩
  | schedule key s delay? =>
      obtain ⟨hs, hdelay⟩ := hs
      simp only [Stage.run, Stage.schedule]
      cases hschedule : g.timer.schedule g.now key s delay? with
      | none => exact ⟨h, by simp⟩
      | some timer =>
          obtain ⟨htimer, htimes⟩ :=
            h.timer.schedule (h.longest ▸ hs) (h.longest ▸ hdelay) hschedule
          exact ⟨⟨htimer, htimes ▸ h.longest, h.works⟩, by simp⟩
  | sequence ss =>
      simp only [Stage.run]
      exact Calm.runAll h hs

/-- Calm scripts leave a calm stage calm. -/
theorem Calm.runAll [IsOrderedAddMonoid τ] {g : Stage τ} (h : g.Calm longest)
    {ss : List (Script τ)} (hss : Script.AllCalm longest ss) :
    (g.runAll ss).1.Calm longest ∧ (g.runAll ss).2 ≠ .aborted := by
  cases ss with
  | nil => exact ⟨h, by simp [Stage.runAll]⟩
  | cons s ss =>
      obtain ⟨hs, hss⟩ := hss
      obtain ⟨hcalm, houtcome⟩ := Calm.run h hs
      simp only [Stage.runAll]
      obtain ⟨g', outcome, hrun⟩ : ∃ g' outcome, g.run s = (g', outcome) := ⟨_, _, rfl⟩
      rw [hrun] at hcalm houtcome ⊢
      cases outcome with
      | done => exact Calm.runAll hcalm hss
      | failed cause => exact ⟨hcalm, by simp⟩
      | aborted => exact absurd rfl houtcome

end

variable [IsOrderedAddMonoid τ] {g : Stage τ}

theorem Calm.perform (h : g.Calm longest) {task : Task τ (Script τ)}
    (htask : task.action.Calm longest) : (g.perform task).Calm longest := by
  obtain ⟨hcalm, houtcome⟩ := h.run htask
  rw [Stage.perform]
  obtain ⟨g', outcome, hrun⟩ : ∃ g' outcome, g.run task.action = (g', outcome) := ⟨_, _, rfl⟩
  rw [hrun] at hcalm houtcome ⊢
  cases outcome with
  | done => exact hcalm
  | failed cause => exact ⟨hcalm.timer, hcalm.longest, hcalm.works⟩
  | aborted => exact absurd rfl houtcome

theorem Calm.settle (h : g.Calm longest) : g.settle.1.Calm longest := by
  induction g using settle.induct with
  | case1 g hended => exact absurd hended (by simp [h.works])
  | case2 g _ w timer hnext =>
      rw [(settle_of_wait h.works hnext).1]
      have hcalm : timer.Calm g.now ∧ timer.times = g.timer.times := by
        rcases Queue.of_next_wait hnext with ⟨-, -, rfl⟩ | ⟨-, rfl, -⟩
        · exact ⟨h.timer, rfl⟩
        · exact ⟨h.timer.sublist (List.dropWhile_sublist _), rfl⟩
      exact ⟨hcalm.1, hcalm.2 ▸ h.longest, h.works⟩
  | case3 g _ time timer hnext => exact absurd hnext (h.timer.not_late time)
  | case4 g _ e timer hnext ih =>
      obtain ⟨htimer, htimes, haction⟩ := h.timer.of_run hnext
      rw [(settle_of_run h.works hnext).1]
      have hcalm : Calm { g with timer } longest := ⟨htimer, htimes ▸ h.longest, h.works⟩
      exact ih (hcalm.perform (h.longest ▸ haction))

/-- Nothing in the input can end a worker that can wait for the given time. -/
def Input.Calm (longest : τ) : Input τ → Prop
  | .schedule _ s delay? => s.Calm longest ∧ ∀ delay ∈ delay?, delay ≤ longest
  | .advance time => 0 ≤ time
  | .shutdown => True

theorem Calm.follow (h : g.Calm longest) {input : Input τ} (hinput : input.Calm longest) :
    (g.follow input).Calm longest := by
  cases input with
  | schedule key s delay? => exact (h.run (s := .schedule key s delay?) hinput).1
  | advance time =>
      exact Calm.settle ⟨h.timer.later (le_add_of_nonneg_right hinput), h.longest, h.works⟩
  | shutdown => exact ⟨h.timer.shutdown, h.longest, h.works⟩

/-- If no delay is longer than can be waited for, the clock does not go back and no task ends the
worker, then nothing else ends it. -/
theorem not_ended_of_calm {times : Queue.Times τ} (now : τ) {inputs : List (Input τ)}
    (hdelay : times.delay ≤ times.longest)
    (hinputs : ∀ input ∈ inputs, input.Calm times.longest) (j : Nat) :
    ¬ Queue.Ended times ((start times now).history inputs) j := by
  have hcalm (g : Stage τ) (h : g.Calm times.longest) : (g.followAll inputs).Calm times.longest := by
    induction inputs generalizing g with
    | nil => exact h
    | cons input inputs ih =>
        rw [List.forall_mem_cons] at hinputs
        exact ih hinputs.2 _ (h.follow hinputs.1)
  have hworks := (hcalm (start times now) ⟨⟨hdelay, by simp [start, Queue.start],
    by simp [start, Queue.start]⟩, rfl, rfl⟩).works
  rw [Bool.eq_false_iff, ne_eq, (ended_followAll (start times now) inputs).1] at hworks
  exact fun hj => hworks (.inr (Queue.endsIn_start_iff.2 ⟨j, hj⟩))

end Stage

end Calm

end Npl
