import Mathlib.Data.List.Nodup
import Mathlib.Data.List.Pairwise
import Mathlib.Data.List.TakeWhile
import Mathlib.Data.Prod.Lex
import Npl.Proofs.Keyed
import Npl.Proofs.Timer
import Npl.Timer.Queue

/-!
# What a queue holds

The tasks that wait in a queue are told in two ways: the entries that are not cancelled, and the
numbers that are kept for the keys. `Queue.Holds` says that both mean the same tasks. Every call of a
queue keeps that, whatever cancelled entries there are.

Read in the order of their numbers, the tasks that a queue holds are the tasks of a timer, and the
queue does with them what the timer does.

## Main definitions

* `Queue.Holds` — the waiting tasks of a queue in the order of scheduling.
* `Queue.Matches` — a timer has the tasks that a queue holds.

## Main results

* `Queue.Holds.cancel`, `Queue.Holds.add` — what becomes of a queue if a task is cancelled or added.
* `Queue.Holds.schedule`, `Queue.Holds.of_run`, `Queue.Holds.of_wait`, `Queue.Holds.of_late` — what
  each call does to the waiting tasks.
* `Queue.Holds.perm` — the entries that are not cancelled are the waiting tasks, each once.
* `Queue.Matches.schedule`, `Queue.Matches.next` — a queue does what the timer does.
-/

namespace Npl.Queue

variable {τ α : Type}

/-! ### The order of the entries -/

section Order

variable [LinearOrder τ] {e f g : Entry τ α}

/-- Entries are done in the order of their times, and those of one time in the order of their
numbers. -/
theorem Entry.before_iff :
    e.Before f ↔ toLex (e.task.due, e.number) < toLex (f.task.due, f.number) := by
  rw [Prod.Lex.toLex_lt_toLex, Entry.Before]
  constructor
  · rintro (h | ⟨hnot, h⟩)
    · exact .inl h
    · rcases lt_or_eq_of_le (not_lt.1 hnot) with hlt | heq
      · exact .inl hlt
      · exact .inr ⟨heq, h⟩
  · rintro (h | ⟨heq, h⟩)
    · exact .inl h
    · exact .inr ⟨(le_of_eq heq).not_gt, h⟩

theorem Entry.Before.trans (h : e.Before f) (h' : f.Before g) : e.Before g := by
  rw [before_iff] at *
  exact h.trans h'

theorem Entry.Before.irrefl (e : Entry τ α) : ¬ e.Before e := by
  rw [before_iff]
  exact lt_irrefl _

/-- Of two entries with different numbers one is to be done before the other. -/
theorem Entry.before_of_not_before (h : ¬ e.Before f) (hne : e.number ≠ f.number) : f.Before e := by
  rw [before_iff] at *
  refine lt_of_le_of_ne (not_lt.1 h) fun heq => hne ?_
  exact (Prod.mk.inj (toLex.injective heq)).2.symm

theorem mem_enqueue {e : Entry τ α} {entries : List (Entry τ α)} :
    f ∈ enqueue e entries ↔ f = e ∨ f ∈ entries := by
  induction entries with
  | nil => simp [enqueue]
  | cons first entries ih =>
      rw [enqueue]
      split
      · exact List.mem_cons
      · simp only [List.mem_cons, ih]
        exact or_left_comm

/-- A new entry is put in its place. -/
theorem sorted_enqueue {e : Entry τ α} {entries : List (Entry τ α)}
    (h : entries.Pairwise Entry.Before) (hnew : ∀ f ∈ entries, f.number ≠ e.number) :
    (enqueue e entries).Pairwise Entry.Before := by
  induction entries with
  | nil => exact List.pairwise_singleton _ _
  | cons first entries ih =>
      obtain ⟨hfirst, hrest⟩ := List.pairwise_cons.1 h
      rw [enqueue]
      split
      · next hbefore =>
          refine List.pairwise_cons.2 ⟨fun f hf => ?_, h⟩
          rcases List.mem_cons.1 hf with rfl | hf
          · exact hbefore
          · exact hbefore.trans (hfirst f hf)
      · next hnot =>
          have hafter : first.Before e :=
            Entry.before_of_not_before hnot (hnew first List.mem_cons_self).symm
          have hbehind : ∀ f ∈ entries, f.number ≠ e.number := fun f hf =>
            hnew f (List.mem_cons_of_mem _ hf)
          refine List.pairwise_cons.2 ⟨fun f hf => ?_, ih hrest hbehind⟩
          rcases mem_enqueue.1 hf with rfl | hf
          · exact hafter
          · exact hfirst f hf

end Order

/-! ### Cancelling -/

/-- Cancelling takes away the task of the given number. -/
theorem mem_cancelNumber {number? : Option Nat} {entries : List (Entry τ α)} {e : Entry τ α}
    (hlive : e.cancelled = false) :
    e ∈ cancelNumber number? entries ↔ e ∈ entries ∧ number? ≠ some e.number := by
  simp only [cancelNumber, List.mem_map]
  constructor
  · rintro ⟨f, hf, rfl⟩
    split at hlive
    · simp [Entry.cancel] at hlive
    · next hother =>
        rw [if_neg hother]
        exact ⟨hf, hother⟩
  · rintro ⟨he, hother⟩
    exact ⟨e, he, if_neg hother⟩

/-- Cancelling changes neither the times nor the numbers. -/
theorem exists_of_mem_cancelNumber {number? : Option Nat} {entries : List (Entry τ α)}
    {e : Entry τ α} (h : e ∈ cancelNumber number? entries) :
    ∃ f ∈ entries, f.number = e.number := by
  obtain ⟨f, hf, rfl⟩ := List.mem_map.1 h
  refine ⟨f, hf, ?_⟩
  split <;> rfl

theorem sorted_cancelNumber [LT τ] {entries : List (Entry τ α)}
    (h : entries.Pairwise Entry.Before) (number? : Option Nat) :
    (cancelNumber number? entries).Pairwise Entry.Before := by
  refine List.pairwise_map.2 (h.imp fun {e f} hbefore => ?_)
  split <;> split <;> exact hbefore

/-- Dropping what is cancelled at the front loses no other entry. -/
theorem mem_dropWhile_cancelled {entries : List (Entry τ α)} {e : Entry τ α}
    (hlive : e.cancelled = false) : e ∈ entries.dropWhile (·.cancelled) ↔ e ∈ entries := by
  refine ⟨fun h => (List.dropWhile_sublist _).subset h, fun h => ?_⟩
  rw [← List.takeWhile_append_dropWhile (p := (·.cancelled)) (l := entries), List.mem_append] at h
  refine h.resolve_left fun htake => ?_
  simpa [hlive] using List.mem_takeWhile_imp htake

/-! ### The waiting tasks -/

/-- Leaving a key out leaves the other keys in their order. -/
theorem map_key_filter (es : List (Entry τ α)) (key : String) :
    (es.filter (·.task.key ≠ key)).map (·.task.key) = (es.map (·.task.key)).filter (· ≠ key) := by
  rw [List.filter_map]
  rfl

/-- The queue holds these tasks in the order of scheduling: they are the entries that are not
cancelled, and their numbers are kept for their keys. -/
structure Holds [LT τ] (q : Queue τ α) (es : List (Entry τ α)) : Prop where
  live : ∀ e, e ∈ es ↔ e ∈ q.entries ∧ e.cancelled = false
  numbers : q.numbers.entries = es.map fun e => (e.task.key, e.number)
  keys : (es.map (·.task.key)).Nodup
  ordered : es.Pairwise (·.number < ·.number)
  below : ∀ e ∈ q.entries, e.number < q.counter
  sorted : q.entries.Pairwise Entry.Before
  stopped : q.stopped = true → q.entries = []

namespace Holds

section

variable [LT τ] {q : Queue τ α} {es : List (Entry τ α)}

/-- A new queue holds no tasks. -/
theorem start (times : Times τ) : (start times : Queue τ α).Holds [] where
  live := by simp [Queue.start]
  numbers := rfl
  keys := List.nodup_nil
  ordered := .nil
  below := by simp [Queue.start]
  sorted := .nil
  stopped := fun h => by simp [Queue.start] at h

/-- A queue that was shut down holds no tasks. -/
theorem shutdown (q : Queue τ α) : q.shutdown.Holds [] where
  live := by simp [Queue.shutdown]
  numbers := rfl
  keys := List.nodup_nil
  ordered := .nil
  below := by simp [Queue.shutdown]
  sorted := .nil
  stopped := fun _ => rfl

theorem eq_nil_of_stopped (h : q.Holds es) (hstopped : q.stopped = true) : es = [] := by
  refine List.eq_nil_iff_forall_not_mem.2 fun e he => ?_
  have := ((h.live e).1 he).1
  simp [h.stopped hstopped] at this

/-- The pending keys are those of the tasks. -/
theorem pending (h : q.Holds es) : q.pending = es.map (·.task.key) := by
  rw [Queue.pending, Keyed.keys, h.numbers, List.map_map]
  rfl

theorem nodup (h : q.Holds es) : es.Nodup :=
  .of_map _ h.keys

theorem eq_of_key (h : q.Holds es) {e f : Entry τ α} (he : e ∈ es) (hf : f ∈ es)
    (hkey : e.task.key = f.task.key) : e = f :=
  List.inj_on_of_nodup_map h.keys he hf hkey

theorem eq_of_number (h : q.Holds es) {e f : Entry τ α} (he : e ∈ es) (hf : f ∈ es)
    (hnumber : e.number = f.number) : e = f :=
  List.inj_on_of_nodup_map
    (List.pairwise_map.2 (h.ordered.imp Nat.ne_of_lt)) he hf hnumber

/-- The number that is kept for a key is that of the task that waits for it. -/
theorem get?_eq_some_iff (h : q.Holds es) {key : String} {number : Nat} :
    q.numbers.get? key = some number ↔ ∃ e ∈ es, e.task.key = key ∧ e.number = number := by
  have hkeys : q.numbers.keys.Nodup := by
    have := h.pending
    rw [Queue.pending] at this
    exact this ▸ h.keys
  rw [← Keyed.mem_entries_iff hkeys, h.numbers]
  simp

/-- The number that is kept for a key is that of one task exactly if the task waits for the key. -/
theorem get?_eq_number_iff (h : q.Holds es) {e : Entry τ α} (he : e ∈ es) {key : String} :
    q.numbers.get? key = some e.number ↔ e.task.key = key := by
  rw [h.get?_eq_some_iff]
  constructor
  · rintro ⟨f, hf, hkey, hnumber⟩
    exact h.eq_of_number hf he hnumber ▸ hkey
  · exact fun hkey => ⟨e, he, hkey, rfl⟩

/-- Without the number that is kept for a key, the numbers are those of the other tasks. -/
theorem entries_erase (h : q.Holds es) (key : String) :
    (q.numbers.erase key).entries =
      (es.filter (·.task.key ≠ key)).map fun e => (e.task.key, e.number) := by
  simp only [Keyed.erase, h.numbers, List.filter_map]
  rfl

/-- Cancelled entries at the front can be dropped. -/
theorem dropWhile (h : q.Holds es) :
    Holds { q with entries := q.entries.dropWhile (·.cancelled) } es where
  live := by
    intro e
    rw [h.live e]
    exact and_congr_left fun hlive => (mem_dropWhile_cancelled hlive).symm
  numbers := h.numbers
  keys := h.keys
  ordered := h.ordered
  below := fun e he => h.below e ((List.dropWhile_sublist _).subset he)
  sorted := h.sorted.sublist (List.dropWhile_sublist _)
  stopped := fun hstopped => by simp [h.stopped hstopped]

end

/-! ### Scheduling -/

section

variable [LinearOrder τ] {q q' : Queue τ α} {es : List (Entry τ α)}

/-- The entries that are not cancelled are the waiting tasks, each once. -/
theorem perm (h : q.Holds es) : (q.entries.filter (! ·.cancelled)).Perm es := by
  have hentries : q.entries.Nodup := by
    refine List.Pairwise.imp ?_ h.sorted
    rintro e f hbefore rfl
    exact Entry.Before.irrefl e hbefore
  refine (List.perm_ext_iff_of_nodup (hentries.filter _) h.nodup).2 fun e => ?_
  rw [h.live e, List.mem_filter]
  simp

/-- Cancelling the task that waits for a key leaves the others waiting. -/
theorem cancel (h : q.Holds es) (key : String) :
    Holds { q with
      numbers := q.numbers.erase key
      entries := cancelNumber (q.numbers.get? key) q.entries } (es.filter (·.task.key ≠ key)) where
  live := by
    intro e
    rw [List.mem_filter, decide_eq_true_eq, h.live e]
    by_cases hlive : e.cancelled = false
    · have hother : e ∈ q.entries → (e.task.key ≠ key ↔ q.numbers.get? key ≠ some e.number) :=
        fun he => (h.get?_eq_number_iff ((h.live e).2 ⟨he, hlive⟩)).not.symm
      rw [mem_cancelNumber hlive, and_right_comm]
      exact and_congr_left fun _ => and_congr_right hother
    · simp [hlive]
  numbers := h.entries_erase key
  keys := map_key_filter es key ▸ h.keys.filter _
  ordered := h.ordered.filter _
  below := by
    intro e he
    obtain ⟨f, hf, hsame⟩ := exists_of_mem_cancelNumber he
    exact hsame ▸ h.below f hf
  sorted := sorted_cancelNumber h.sorted _
  stopped := fun hstopped => by simp [cancelNumber, h.stopped hstopped]

/-- A new task with the next number and a new key comes behind the others. -/
theorem add (h : q.Holds es) (hrunning : q.stopped = false) {e : Entry τ α}
    (hnumber : e.number = q.counter) (hlive : e.cancelled = false)
    (hnew : e.task.key ∉ es.map (·.task.key)) :
    Holds { q with
      numbers := q.numbers.set e.task.key q.counter
      entries := enqueue e q.entries
      counter := q.counter + 1 } (es ++ [e]) where
  live := by
    intro f
    rw [List.mem_append, List.mem_singleton, mem_enqueue, h.live f, or_comm, or_and_right]
    refine or_congr_left ⟨fun heq => ⟨heq, heq ▸ hlive⟩, And.left⟩
  numbers := by
    have hkey : e.task.key ∉ q.pending := by
      rw [h.pending]
      exact hnew
    rw [Keyed.entries_set_of_not_mem hkey, h.numbers, List.map_append, ← hnumber]
    rfl
  keys := by
    rw [List.map_append, List.nodup_append]
    refine ⟨h.keys, List.nodup_singleton _, ?_⟩
    rintro k hk other hother rfl
    obtain rfl : k = e.task.key := List.mem_singleton.1 hother
    exact hnew hk
  ordered := by
    rw [List.pairwise_append]
    refine ⟨h.ordered, List.pairwise_singleton _ _, fun f hf other hother => ?_⟩
    obtain rfl := List.mem_singleton.1 hother
    exact hnumber ▸ h.below f ((h.live f).1 hf).1
  below := by
    intro f hf
    rcases mem_enqueue.1 hf with rfl | hf
    · exact Nat.lt_succ_of_le (Nat.le_of_eq hnumber)
    · exact Nat.lt_succ_of_lt (h.below f hf)
  sorted := sorted_enqueue h.sorted fun f hf => Nat.ne_of_lt (hnumber ▸ h.below f hf)
  stopped := fun hstopped => by simp [hrunning] at hstopped

/-- A new task comes behind the others and takes the place of the one that waits for its key. -/
theorem schedule [Add τ] (h : q.Holds es) {now : τ} {key : String} {action : α}
    {delay? : Option τ} (hschedule : q.schedule now key action delay? = some q') :
    q'.Holds (es.filter (·.task.key ≠ key) ++ [q.entry now key action delay?]) := by
  unfold Queue.schedule at hschedule
  split at hschedule
  · simp at hschedule
  · next hrunning =>
      obtain rfl := Option.some.inj hschedule
      refine (h.cancel key).add (e := q.entry now key action delay?) (by simpa using hrunning) rfl
        rfl ?_
      rw [map_key_filter]
      simp [entry]

/-! ### Taking -/

variable {now : τ} {e : Entry τ α}

/-- The first entry that is not cancelled is the task that is to be done before all others. -/
theorem front (h : q.Holds es) {rest : List (Entry τ α)}
    (hfront : q.entries.dropWhile (·.cancelled) = e :: rest) :
    e ∈ es ∧ ∀ f ∈ es, f ≠ e → e.Before f := by
  have hdropped := h.dropWhile
  rw [hfront] at hdropped
  have hlive : e.cancelled = false := by
    have := List.head?_dropWhile_not (·.cancelled) q.entries
    simpa [hfront] using this
  refine ⟨(hdropped.live e).2 ⟨List.mem_cons_self, hlive⟩, fun f hf hne => ?_⟩
  have hmem := ((hdropped.live f).1 hf).1
  exact (List.pairwise_cons.1 hdropped.sorted).1 f ((List.mem_cons.1 hmem).resolve_left hne)

/-- If all entries are cancelled, then there are no tasks. -/
theorem eq_nil_of_front (h : q.Holds es) (hfront : q.entries.dropWhile (·.cancelled) = []) :
    es = [] := by
  have hdropped := h.dropWhile
  rw [hfront] at hdropped
  exact List.eq_nil_iff_forall_not_mem.2 fun f hf => List.not_mem_nil ((hdropped.live f).1 hf).1

/-- If the first entry that is not cancelled is not due, then no task is. -/
theorem lt_due_of_front (h : q.Holds es) {rest : List (Entry τ α)}
    (hfront : q.entries.dropWhile (·.cancelled) = e :: rest) (hearly : now < e.task.due) :
    ∀ f ∈ es, now < f.task.due := by
  intro f hf
  by_cases heq : f = e
  · exact heq ▸ hearly
  · rcases (h.front hfront).2 f hf heq with hlt | ⟨hnot, -⟩
    · exact hearly.trans hlt
    · exact hearly.trans_le (not_lt.1 hnot)

variable [Sub τ]

/-- The task that is taken is due, it is to be done before all others, and these go on waiting. -/
theorem of_run (h : q.Holds es) (hnext : q.next now = (.run e, q')) :
    e ∈ es ∧ e.task.due ≤ now ∧ (∀ f ∈ es, f ≠ e → e.Before f) ∧
      q'.Holds (es.filter (·.task.key ≠ e.task.key)) := by
  obtain ⟨hrunning, hdue, numbers, rest, hfront, rfl, rfl⟩ := of_next_run hnext
  obtain ⟨he, hfirst⟩ := h.front hfront
  have hdropped := h.dropWhile
  rw [hfront] at hdropped
  obtain ⟨hbefore, hsorted⟩ := List.pairwise_cons.1 hdropped.sorted
  have hnumber : q.numbers.get? e.task.key = some e.number := (h.get?_eq_number_iff he).2 rfl
  have hother : ∀ f ∈ es, (f.task.key ≠ e.task.key ↔ f ≠ e) := fun f hf =>
    ⟨fun hne heq => hne (heq ▸ rfl), fun hne hkey => hne (h.eq_of_key hf he hkey)⟩
  refine ⟨he, not_lt.1 hdue, hfirst, fun f => ?_, ?_, ?_, h.ordered.filter _,
    fun f hf => hdropped.below f (List.mem_cons_of_mem _ hf), hsorted, ?_⟩
  · rw [List.mem_filter, decide_eq_true_eq]
    constructor
    · rintro ⟨hf, hkey⟩
      obtain ⟨hmem, hlive⟩ := (hdropped.live f).1 hf
      exact ⟨(List.mem_cons.1 hmem).resolve_left ((hother f hf).1 hkey), hlive⟩
    · rintro ⟨hmem, hlive⟩
      have hf := (hdropped.live f).2 ⟨List.mem_cons_of_mem _ hmem, hlive⟩
      have hne : f ≠ e := fun heq => Entry.Before.irrefl e (heq ▸ hbefore f hmem)
      exact ⟨hf, (hother f hf).2 hne⟩
  · rw [if_pos hnumber]
    exact h.entries_erase e.task.key
  · exact h.keys.sublist ((List.filter_sublist).map _)
  · intro hstopped
    simp [hrunning] at hstopped

/-- If nothing is to be done for a while, then no task is due, and all go on waiting. -/
theorem of_wait (h : q.Holds es) {w : Wait τ} (hnext : q.next now = (.wait w, q')) :
    (∀ f ∈ es, now < f.task.due) ∧ q'.Holds es := by
  rcases of_next_wait hnext with ⟨hstopped, -, rfl⟩ | ⟨-, rfl, hempty⟩
  · refine ⟨fun f hf => ?_, h⟩
    rw [h.eq_nil_of_stopped hstopped] at hf
    cases hf
  · refine ⟨?_, h.dropWhile⟩
    rcases hempty with ⟨hnil, -⟩ | ⟨first, rest, hfront, hearly, -⟩
    · rw [h.eq_nil_of_front hnil]
      simp
    · exact h.lt_due_of_front hfront hearly

/-- If the next task cannot be waited for, then no task is due, and all go on waiting. -/
theorem of_late (h : q.Holds es) {time : τ} (hnext : q.next now = (.late time, q')) :
    (∀ f ∈ es, now < f.task.due) ∧ q'.Holds es := by
  obtain ⟨-, rfl, first, rest, hfront, hearly, -⟩ := of_next_late hnext
  exact ⟨h.lt_due_of_front hfront hearly, h.dropWhile⟩

end

end Holds

/-! ### The timer of a queue -/

/-- The timer has the tasks that the queue holds. -/
def Matches [LT τ] (q : Queue τ α) (t : Timer τ α) : Prop :=
  ∃ es, q.Holds es ∧ t = ⟨q.times.delay, es.map Entry.task, q.stopped⟩

/-- What a turn of a queue does is what the timer does: the same task is taken, or none is and the
time to wait is the same. A timer does not tell whether the time is too long. -/
def Turn.Matches [LT τ] [DecidableLT τ] [Sub τ] (t : Timer τ α) (now : τ) :
    Turn τ α × Queue τ α → Prop
  | (.run e, q) => ∃ t', t.due? now = some (e.task, t') ∧ q.Matches t'
  | (.wait w, q) => t.due? now = none ∧ t.wait now = w ∧ q.Matches t
  | (.late time, q) => t.due? now = none ∧ t.wait now = .lasting time ∧ q.Matches t

section

variable [LT τ] {q : Queue τ α} {t : Timer τ α}

theorem matches_start (times : Times τ) :
    (start times : Queue τ α).Matches (.start times.delay) :=
  ⟨[], .start times, rfl⟩

theorem Matches.shutdown (h : q.Matches t) : q.shutdown.Matches t.shutdown := by
  obtain ⟨es, -, rfl⟩ := h
  exact ⟨[], .shutdown q, rfl⟩

theorem Matches.pending (h : q.Matches t) : q.pending = t.pending := by
  obtain ⟨es, hes, rfl⟩ := h
  rw [hes.pending, Timer.pending, List.map_map]
  rfl

end

variable [LinearOrder τ] {q : Queue τ α} {t : Timer τ α}

theorem Matches.schedule [Add τ] (h : q.Matches t) (now : τ) (key : String) (action : α)
    (delay? : Option τ) :
    Option.Rel Matches (q.schedule now key action delay?) (t.schedule now key action delay?) := by
  obtain ⟨es, hes, rfl⟩ := h
  cases hschedule : q.schedule now key action delay? with
  | none =>
      have hstopped : q.stopped = true := by
        by_contra hrunning
        simp [Queue.schedule, hrunning] at hschedule
      simp only [Timer.schedule, if_pos hstopped]
      exact .none
  | some q' =>
      have hrunning : q.stopped = false := by
        by_contra hstopped
        simp [Queue.schedule, hstopped] at hschedule
      have hholds := hes.schedule hschedule
      simp only [Queue.schedule, hrunning] at hschedule
      obtain rfl := Option.some.inj hschedule
      simp only [Timer.schedule, hrunning]
      refine .some ⟨_, hholds, ?_⟩
      simp [List.filter_map, entry, Function.comp_def]

/-- The task of a queue that is to be done before all others is the earliest one of the timer. -/
theorem Holds.earliest?_eq {es : List (Entry τ α)} {e : Entry τ α} (h : q.Holds es)
    (he : e ∈ es) (hfirst : ∀ f ∈ es, f ≠ e → e.Before f) :
    Timer.earliest? (es.map Entry.task) =
      some (e.task, (es.filter (·.task.key ≠ e.task.key)).map Entry.task) := by
  obtain ⟨es₁, es₂, rfl⟩ := List.append_of_mem he
  have hkeys := h.keys
  rw [List.map_append, List.map_cons] at hkeys
  have hne : ∀ f ∈ es₁ ++ es₂, f.task.key ≠ e.task.key := by
    intro f hf hkey
    have hnot := (List.nodup_middle.1 hkeys).notMem
    rw [← List.map_append] at hnot
    exact hnot (hkey ▸ List.mem_map_of_mem (f := fun e : Entry τ α => e.task.key) hf)
  have hfilter : (es₁ ++ e :: es₂).filter (·.task.key ≠ e.task.key) = es₁ ++ es₂ := by
    rw [List.filter_append, List.filter_cons_of_neg (by simp), ← List.filter_append]
    exact List.filter_eq_self.2 fun f hf => decide_eq_true (hne f hf)
  have hbefore : ∀ f ∈ es₁ ++ es₂, e.Before f := fun f hf =>
    hfirst f (List.mem_append.2 ((List.mem_append.1 hf).imp_right (List.mem_cons_of_mem _)))
      fun heq => hne f hf (heq ▸ rfl)
  have hearlier : ∀ f ∈ es₁, e.task.due < f.task.due := by
    intro f hf
    have hnumber : f.number < e.number :=
      (List.pairwise_append.1 h.ordered).2.2 f hf e List.mem_cons_self
    rcases hbefore f (List.mem_append_left _ hf) with hlt | ⟨-, hless⟩
    · exact hlt
    · exact absurd hless hnumber.not_gt
  have hlater : ∀ f ∈ es₂, ¬ f.task.due < e.task.due := by
    intro f hf
    rcases hbefore f (List.mem_append_right _ hf) with hlt | ⟨hnot, -⟩
    · exact hlt.not_gt
    · exact hnot
  rw [hfilter, List.map_append, List.map_cons, List.map_append]
  exact Timer.earliest?_append_cons (by simpa using hearlier) (by simpa using hlater)

/-- If the first entry that is not cancelled is not due, the timer waits for it. -/
theorem Holds.timer_of_front [Sub τ] {es rest : List (Entry τ α)} {e : Entry τ α} {now : τ}
    (h : q.Holds es) (hrunning : q.stopped = false)
    (hfront : q.entries.dropWhile (·.cancelled) = e :: rest) (hearly : now < e.task.due) :
    Timer.due? ⟨q.times.delay, es.map Entry.task, q.stopped⟩ now = none ∧
      Timer.wait ⟨q.times.delay, es.map Entry.task, q.stopped⟩ now = .lasting (e.task.due - now) := by
  obtain ⟨hmem, hfirst⟩ := h.front hfront
  have hearliest := h.earliest?_eq hmem hfirst
  exact ⟨by simp only [Timer.due?, hearliest, if_pos hearly],
    by simp [Timer.wait, hrunning, hearliest]⟩

/-- In each turn a queue does what the timer does. -/
theorem Matches.next [Sub τ] (h : q.Matches t) (now : τ) : Turn.Matches t now (q.next now) := by
  obtain ⟨es, hes, rfl⟩ := h
  obtain ⟨turn, q', hnext⟩ : ∃ turn q', q.next now = (turn, q') := ⟨_, _, rfl⟩
  rw [hnext]
  cases turn with
  | run e =>
      obtain ⟨he, hdue, hfirst, hholds⟩ := hes.of_run hnext
      obtain ⟨-, -, _, _, -, rfl, -⟩ := of_next_run hnext
      refine ⟨_, ?_, _, hholds, rfl⟩
      simp only [Timer.due?, hes.earliest?_eq he hfirst, if_neg hdue.not_gt]
  | wait w =>
      obtain ⟨hearly, hholds⟩ := hes.of_wait hnext
      rcases of_next_wait hnext with ⟨hstopped, rfl, rfl⟩ | ⟨hrunning, rfl, hempty⟩
      · refine ⟨?_, by simp [Timer.wait, hstopped], es, hholds, rfl⟩
        simp [Timer.due?, hes.eq_nil_of_stopped hstopped, Timer.earliest?]
      · rcases hempty with ⟨hnil, rfl⟩ | ⟨first, rest, hfront, hdue, rfl⟩
        · obtain rfl := hes.eq_nil_of_front hnil
          exact ⟨rfl, by simp [Timer.wait, hrunning, Timer.earliest?], [], hholds, rfl⟩
        · obtain ⟨hnone, hwait⟩ := hes.timer_of_front hrunning hfront hdue
          exact ⟨hnone, hwait, es, hholds, rfl⟩
  | late time =>
      obtain ⟨-, hholds⟩ := hes.of_late hnext
      obtain ⟨hrunning, rfl, first, rest, hfront, hdue, rfl, -⟩ := of_next_late hnext
      obtain ⟨hnone, hwait⟩ := hes.timer_of_front hrunning hfront hdue
      exact ⟨hnone, hwait, es, hholds, rfl⟩

end Npl.Queue
