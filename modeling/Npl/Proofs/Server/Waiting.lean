import Npl.Proofs.Project.Attempts
import Npl.Proofs.Server.Upkeep
import Npl.Proofs.Timer

/-!
# What waits to be compiled

A server with a quiet period leaves no change behind. As long as something waits to be compiled, a
task to do so waits as well, or it was tried already, after the last change, without a report. The
disk and the compiler may be other ones with each input.

Only an edit changes documents without compiling them, and it schedules the task. Everything else
that changes documents compiles at once, and no task is taken from the timer without an attempt. A
timer that was shut down takes no task, so the server must not have been.

## Main definitions

* `Server.watch` — what an input does to the project, watched.
* `Server.live`, `Server.told` — a run in changing surroundings, and what happens in it.

## Main results

* `Server.project_follow` — an input does to the project what is watched.
* `Server.awaited_of_live` — what waits is scheduled or was tried.
-/

namespace Npl

open Project (Moment Watched Tried Answered)
open Project.Action (Ends Respects)

namespace Project.Watched

/-! ### What happens to the project -/

/-- Watches `Project.connect`. -/
def connect (e : Surroundings) (folders : List String) (options : Json) (trace? : Option String)
    (references : List String) : Watched Unit := do
  silent (trace?.forM applyTrace)
  let (roots, records) := chooseFolders options folders
  silent (records.forM log)
  if roots.isEmpty then
    silent (log (.ofPart "lsp" Level.warning "No workspace folders found to preload."))
  else
    silent (log (.ofPart "lsp" Level.info
      ("Preloading sources for workspace folders: " ++ Text.quoteList roots)))
    load e roots references

/-- Watches `Project.changeFolders`. -/
def changeFolders (e : Surroundings) (roots references : List String) : Watched Unit := do
  silent (log (.ofPart "lsp" Level.info ("Workspace folders changed: " ++ Text.quoteList roots)))
  if roots.isEmpty then setRoots e [] else load e roots references

/-- Watches `Project.followFiles`. -/
def followFiles (e : Surroundings) (changes : List (FileChange × String)) : Watched Unit :=
  changes.forM fun (change, uri) => do
    if change = .deleted then
      silent (log (.ofPart "lsp" Level.debug ("File deleted: " ++ uri)))
      remove e uri

/-- Watches `Project.closeDocument`. -/
def closeDocument (e : Surroundings) (uri : String) : Watched Unit := do
  if ← close e uri then
    silent (log (.ofPart "lsp" Level.debug
      ("Closed document " ++ uri ++ " no longer exists, removed")))

/-- Watches `Project.attempt`. -/
def attempt (e : Surroundings) (key : String) : Watched Unit :=
  catching (ignoring (recompile e)) fun refusal => log (Timer.failure key refusal.cause)

variable {α : Type}

theorem act_forM {f : α → Watched PUnit} {g : α → Action PUnit} (h : ∀ a, (f a).act = g a)
    (as : List α) : (as.forM f).act = as.forM g := by
  induction as with
  | nil => rfl
  | cons a as ih =>
      change (f a).act >>= (fun _ => (as.forM f).act) = g a >>= fun _ => as.forM g
      rw [h, ih]

theorem act_connect (e : Surroundings) (folders : List String) (options : Json)
    (trace? : Option String) (references : List String) :
    (connect e folders options trace? references).act =
      Project.connect e folders options trace? references := by
  refine act_bind_congr fun _ => ?_
  generalize chooseFolders options folders = chosen
  refine act_bind_congr fun _ => act_ite_congr rfl (act_bind_congr fun _ => ?_)
  exact act_load e _ references

theorem act_changeFolders (e : Surroundings) (roots references : List String) :
    (changeFolders e roots references).act = Project.changeFolders e roots references :=
  act_bind_congr fun _ => act_ite_congr (act_setRoots e []) (act_load e roots references)

theorem act_followFiles (e : Surroundings) (changes : List (FileChange × String)) :
    (followFiles e changes).act = Project.followFiles e changes :=
  act_forM (fun (_, uri) => act_ite_congr (act_bind_congr fun _ => act_remove e uri) rfl) changes

theorem act_closeDocument (e : Surroundings) (uri : String) :
    (closeDocument e uri).act = Project.closeDocument e uri := by
  unfold closeDocument Project.closeDocument
  rw [act_bind, act_close]
  exact congrArg (Project.close e uri >>= ·) (funext fun gone => act_ite_congr rfl rfl)

theorem act_attempt (e : Surroundings) (key : String) :
    (attempt e key).act = Project.attempt e key := by
  unfold Project.attempt
  rw [← act_recompile]
  rfl

/-! ### Changes are answered -/

variable {e : Surroundings}

theorem heeds_connect (hd : e.disk.Sane) (folders : List String) (options : Json)
    (trace? : Option String) (references : List String) :
    Heeds e (connect e folders options trace? references) := by
  have htrace : Heeds e (silent (trace?.forM applyTrace)) :=
    .silent fun _ _ _ h => (ends_trace h).1.documents
  have hlogs : ∀ records : List LogRecord, Heeds e (silent (records.forM log)) :=
    fun _ => .silent fun _ _ _ h => (Action.logged_of_ends_forM h).2.documents
  unfold connect
  generalize chooseFolders options folders = chosen
  refine .bind htrace fun _ => .bind (hlogs _) fun _ => ?_
  split
  · exact .log _
  · exact .bind (.log _) fun _ => heeds_load hd _ _

theorem heeds_changeFolders (hd : e.disk.Sane) (roots references : List String) :
    Heeds e (changeFolders e roots references) := by
  refine .bind (.log _) fun _ => ?_
  split
  · exact heeds_setRoots_nil hd
  · exact heeds_load hd roots references

theorem heeds_followFiles (hd : e.disk.Sane) (changes : List (FileChange × String)) :
    Heeds e (followFiles e changes) := by
  refine .forM (fun (change, uri) => ?_) changes
  simp only
  split
  · exact .bind (.log _) fun _ => heeds_remove hd uri
  · exact .pure _

theorem heeds_closeDocument (hd : e.disk.Sane) (uri : String) :
    Heeds e (closeDocument e uri) := by
  refine .bind (heeds_close hd uri) fun gone => ?_
  split
  · exact .log _
  · exact .pure _

theorem answers_attempt (hd : e.disk.Sane) (key : String) : Answers e (attempt e key) := by
  intro p ms x q hp hcomes
  obtain ⟨-, y, mid, hends, hlogged⟩ := attempt_cases (act_attempt e key ▸ hcomes.ends)
  have hrecompile : (recompile e).Comes p ms y mid := ⟨act_recompile e ▸ hends, hcomes.told⟩
  obtain ⟨hmid, hanswered⟩ := answers_recompile hd _ _ _ _ hp hrecompile
  exact ⟨hmid.of_same hlogged.documents, hanswered.of_same hlogged.documents⟩

end Project.Watched

namespace Server

variable {τ : Type}

/-! ### What an input does to the project -/

/-- Putting off a compilation writes to the log if the timer was shut down. -/
theorem project_compileLater [Add τ] (uri : String) (s : Server τ) :
    (compileLater uri s).2.project = ((match s.timer.schedule s.now compileKey () none with
      | some _ => pure ()
      | none => Project.log (.ofPart "lsp" Level.debug
          ("Change to " ++ uri ++ " after shutdown, not compiling")) : Project.Action Unit)
        s.project).2 := by
  unfold compileLater
  rw [get_bind_apply]
  cases s.timer.schedule s.now compileKey () none with
  | none => rfl
  | some timer => rfl

section

variable [Add τ] [LT τ] [DecidableLT τ] [OfNat τ 0]

/-- Watches what an edit does to the project. -/
def watchEdit (e : Surroundings) (s : Server τ) (uri text : String) : Watched Unit := do
  if ← Watched.update e uri text false then
    if 0 < s.quiet then
      match s.timer.schedule s.now compileKey () none with
      | some _ => return
      | none => .silent (Project.log (.ofPart "lsp" Level.debug
          ("Change to " ++ uri ++ " after shutdown, not compiling")))
    else .ignoring (.recompile e)

/-- Watches what an input does to the project. -/
def watch (e : Surroundings) (s : Server τ) : Input τ → Watched Unit
  | .request (.connect folders options trace?) => .connect e folders options trace? s.libraries
  | .request (.setTrace value) => .silent do
    Project.log (.ofPart "lsp" Level.info ("Setting trace value to: " ++ traceTitle value))
    Project.applyTrace value
  | .request .shutdown =>
    .silent (Project.log (.ofPart "lsp" Level.info "Language server shutting down"))
  | .request (.opened uri text) => .ignoring (.update e uri text true)
  | .request (.edited uri texts) =>
    match texts.getLast? with
    | none => return
    | some text => watchEdit e s uri text
  | .request (.closed uri) => .closeDocument e uri
  | .request (.saved _) => return
  | .request (.filesChanged changes) => .followFiles e changes
  | .request (.foldersChanged added removed) =>
    .changeFolders e (changeRoots s.roots added removed) s.libraries
  | .passed time =>
    (s.timer.takeDue (s.now + time)).1.forM fun task => Watched.attempt e task.key

/-- An edit does to the project what is watched. -/
theorem project_edit (e : Surroundings) (s : Server τ) {uri text : String} {texts : List String}
    (htext : texts.getLast? = some text) :
    (edit e uri texts s).2.project = ((watchEdit e s uri text).act s.project).2 := by
  obtain ⟨x, p, hp⟩ : ∃ x p, Ends (Project.update e uri text false) s.project x p := ⟨_, _, rfl⟩
  have hupdate : Project.update e uri text false s.project = (x, p) := hp
  unfold watchEdit
  rw [Watched.act_bind, Watched.act_update, bind_apply, hupdate]
  match x, hp with
  | .error r, hp => rw [edit_of_passed_over htext hp (by simp)]
  | .ok false, hp => rw [edit_of_passed_over htext hp (by simp)]; rfl
  | .ok true, hp =>
      rw [edit_of_taken_over htext hp]
      simp only [if_true]
      split
      · rw [project_compileLater]
        cases s.timer.schedule s.now compileKey () none with
        | none => rfl
        | some timer => rfl
      · change _ = (discard (Watched.recompile e).act p).2
        rw [Watched.act_recompile, discard_apply]

variable [Sub τ]

/-- **An input does to the project what is watched.** -/
theorem project_follow (e : Surroundings) (s : Server τ) (i : Input τ) :
    (follow e s i).project = ((watch e s i).act s.project).2 := by
  cases i with
  | request r =>
      cases r with
      | connect folders options trace? =>
          obtain ⟨roots, hs⟩ := connect_snd e folders options trace? s
          simp only [follow, handle, hs, watch, Watched.act_connect]
      | setTrace value =>
          simp only [follow, handle_setTrace]
          rfl
      | shutdown => rfl
      | opened uri text =>
          simp only [follow, handle_opened, watch, Watched.ignoring, Watched.act_update]
          rfl
      | edited uri texts =>
          cases htext : texts.getLast? with
          | none =>
              simp only [follow, handle, edit, watch, htext]
              rfl
          | some text =>
              simp only [follow, handle, watch, htext]
              exact project_edit e s htext
      | closed uri =>
          simp only [follow, handle_closed, watch, Watched.act_closeDocument]
          rfl
      | saved uri => rfl
      | filesChanged changes =>
          simp only [follow, handle_filesChanged, watch, Watched.act_followFiles]
          rfl
      | foldersChanged added removed =>
          simp only [follow, handle, changeFolders_snd, watch, Watched.act_changeFolders]
  | passed time =>
      simp only [follow, advance_snd, watch]
      rw [Watched.act_forM fun task : Task τ Unit => Watched.act_attempt e task.key]

end

/-! ### Runs in changing surroundings -/

section

variable [Add τ] [Sub τ] [LT τ] [DecidableLT τ] [OfNat τ 0]

/-- What becomes of the server when it is told one thing after the other, each in its own
surroundings. -/
def live (s : Server τ) (inputs : List (Surroundings × Input τ)) : Server τ :=
  inputs.foldl (fun s i => follow i.1 s i.2) s

/-- What happens in such a run. -/
def told (s : Server τ) : List (Surroundings × Input τ) → List Moment
  | [] => []
  | (e, i) :: inputs => (watch e s i).told s.project ++ told (follow e s i) inputs

end

/-! ### What waits -/

variable [LT τ] [OfNat τ 0] {e : Surroundings} {wd : Path} {s t : Server τ}
  {ms : List Moment}

/-- What waits in the project is scheduled, or it was tried. -/
def Awaited (s : Server τ) (ms : List Moment) : Prop :=
  s.project.documents.dirty = .empty ∨ compileKey ∈ s.timer.pending ∨ Tried ms

/-- A running server with a quiet period whose documents are kept well under their canonical URIs,
and in which what waits is scheduled or was tried. -/
structure Waiting (wd : Path) (s : Server τ) (ms : List Moment) : Prop where
  kept : s.project.documents.Kept
  canonical : s.project.documents.Canonical wd
  running : s.timer.stopped = false
  quiet : 0 < s.quiet
  awaited : Awaited s ms

namespace Waiting

theorem orderly (h : Waiting wd s ms) (hwd : e.disk.workingPath = wd) : s.project.Orderly e :=
  ⟨h.kept, by rw [hwd]; exact h.canonical⟩

/-- What was answered need not wait. -/
theorem of_answered (h : Waiting wd s ms) (hwd : e.disk.workingPath = wd) {ms' : List Moment}
    (ht : t.project.Orderly e) (hanswered : Answered t.project ms')
    (hrunning : t.timer.stopped = s.timer.stopped) (hquiet : t.quiet = s.quiet) :
    Waiting wd t (ms ++ ms') where
  kept := ht.kept
  canonical := by
    rw [← hwd]
    exact ht.canonical
  running := hrunning.trans h.running
  quiet := hquiet ▸ h.quiet
  awaited := (hanswered.append_left ms).imp_right .inr

/-- What was left alone waits on if the timer was left alone as well. -/
theorem of_heeded (h : Waiting wd s ms) (hwd : e.disk.workingPath = wd) {ms' : List Moment}
    (ht : t.project.Orderly e)
    (hheeded : ms' = [] ∧ t.project.documents = s.project.documents ∨ Answered t.project ms')
    (htimer : t.timer = s.timer) (hquiet : t.quiet = s.quiet) : Waiting wd t (ms ++ ms') := by
  rcases hheeded with ⟨rfl, hdocuments⟩ | hanswered
  · refine ⟨ht.kept, hwd ▸ ht.canonical, htimer ▸ h.running, hquiet ▸ h.quiet, ?_⟩
    rw [Awaited, hdocuments, htimer, List.append_nil]
    exact h.awaited
  · exact h.of_answered hwd ht hanswered (by rw [htimer]) hquiet

/-- Actions that heed what waits, and leave the timer alone. -/
theorem of_heeds (h : Waiting wd s ms) (hwd : e.disk.workingPath = wd) {w : Watched Unit}
    (hw : w.Heeds e) {x : Except Refusal Unit} {ms' : List Moment}
    (hcomes : w.Comes s.project ms' x t.project) (htimer : t.timer = s.timer)
    (hquiet : t.quiet = s.quiet) : Waiting wd t (ms ++ ms') := by
  obtain ⟨ht, hheeded⟩ := hw _ _ _ _ (h.orderly hwd) hcomes
  exact h.of_heeded hwd ht hheeded htimer hquiet

end Waiting

/-- A running timer takes the task to compile. -/
theorem compileLater_of_running {τ : Type} [Add τ] {s : Server τ}
    (hrunning : s.timer.stopped = false) (uri : String) :
    ∃ tasks, (compileLater uri s).2 = { s with timer := { s.timer with tasks } } ∧
      compileKey ∈ tasks.map Task.key := by
  refine ⟨s.timer.tasks.filter (·.key ≠ compileKey) ++ [⟨compileKey, s.now + s.timer.delay, ()⟩],
    ?_, by simp⟩
  have hschedule : s.timer.schedule s.now compileKey () none = some { s.timer with
      tasks := s.timer.tasks.filter (·.key ≠ compileKey) ++
        [⟨compileKey, s.now + s.timer.delay, ()⟩] } := by simp [Timer.schedule, hrunning]
  unfold compileLater
  rw [get_bind_apply]
  simp only [hschedule]
  rfl

namespace Waiting

variable [Add τ] [DecidableLT τ]

/-- An edit that is taken over is scheduled. -/
theorem edit (h : Waiting wd s ms) (hd : e.disk.Sane) (hwd : e.disk.workingPath = wd)
    {uri text : String} {texts : List String} (htext : texts.getLast? = some text)
    {x : Except Refusal Unit} {ms' : List Moment}
    (hcomes : (watchEdit e s uri text).Comes s.project ms' x
      (Server.edit e uri texts s).2.project) :
    Waiting wd (Server.edit e uri texts s).2 (ms ++ ms') := by
  have hp := h.orderly hwd
  have hpassed : ∀ {y : Except Refusal Bool} {mid : Project} {told : List Moment}, y ≠ .ok true →
      (Watched.update e uri text false).Comes s.project told y mid →
        Waiting wd (Server.edit e uri texts s).2 (ms ++ told) := by
    intro y mid told hy hupdate
    rw [edit_of_passed_over htext (Watched.act_update e uri text false ▸ hupdate.ends) hy]
    obtain ⟨hmid, hheeded | ⟨-, htrue⟩⟩ := Project.later_of_update hd hp hupdate
    · exact h.of_heeded hwd hmid hheeded rfl rfl
    · exact absurd htrue hy
  rcases Watched.comes_bind_iff.1 hcomes with
    ⟨r, hupdate, -⟩ | ⟨taken, mid, told, rest, hupdate, hrest, rfl⟩
  · exact hpassed (by simp) hupdate
  cases taken with
  | false =>
      obtain ⟨-, hnone⟩ : _ ∧ [] = rest := ⟨hrest.ends, hrest.told⟩
      rw [← hnone, List.append_nil]
      exact hpassed (by simp) hupdate
  | true =>
      obtain ⟨hmid, -⟩ := Project.later_of_update hd hp hupdate
      obtain ⟨tasks, hlater, hscheduled⟩ :=
        compileLater_of_running (s := { s with project := mid }) h.running uri
      rw [edit_of_taken_over htext (Watched.act_update e uri text false ▸ hupdate.ends),
        if_pos h.quiet, hlater]
      exact ⟨hmid.kept, hwd ▸ hmid.canonical, h.running, h.quiet, .inr (.inl hscheduled)⟩

variable [Sub τ]

/-- Each task that is taken from the timer is answered. -/
theorem advance (h : Waiting wd s ms) (hd : e.disk.Sane) (hwd : e.disk.workingPath = wd) (time : τ)
    {x : Except Refusal Unit} {ms' : List Moment}
    (hcomes : (watch e s (.passed time)).Comes s.project ms' x
      (Server.advance e time s).2.project) :
    Waiting wd (Server.advance e time s).2 (ms ++ ms') := by
  obtain ⟨htimer, -⟩ := s.timer.takeDue_eq (s.now + time)
  have hp := h.orderly hwd
  have hrunning : (Server.advance e time s).2.timer.stopped = s.timer.stopped := by
    rw [advance_snd, htimer]
  have hquiet : (Server.advance e time s).2.quiet = s.quiet := by rw [advance_snd]
  simp only [watch] at hcomes
  cases htasks : (s.timer.takeDue (s.now + time)).1 with
  | nil =>
      rw [htasks] at hcomes
      have hsame : (Server.advance e time s).2.timer = s.timer := by
        rw [advance_snd, Timer.takeDue_of_nil htasks]
      exact h.of_heeds hwd (.pure _) hcomes hsame hquiet
  | cons task tasks =>
      rw [htasks] at hcomes
      obtain ⟨ht, hanswered⟩ := Watched.Answers.forM_cons
        (fun task : Task τ Unit => Watched.answers_attempt hd task.key) task tasks _ _ _ _ hp hcomes
      exact h.of_answered hwd ht hanswered hrunning hquiet

/-- Whatever a server is told but to shut down, what waits is scheduled or was tried. -/
theorem follow (h : Waiting wd s ms) (hd : e.disk.Sane) (hwd : e.disk.workingPath = wd)
    {i : Input τ} (hi : i ≠ .request .shutdown) :
    Waiting wd (Server.follow e s i) (ms ++ (watch e s i).told s.project) := by
  obtain ⟨x, hcomes⟩ : ∃ x, (watch e s i).Comes s.project ((watch e s i).told s.project) x
      (Server.follow e s i).project := by
    rw [project_follow]
    exact (watch e s i).exists_comes s.project
  have hquiet := (settings_follow e s i).1
  cases i with
  | request r =>
      cases r with
      | connect folders options trace? =>
          obtain ⟨roots, hs⟩ := connect_snd e folders options trace? s
          exact h.of_heeds hwd (Watched.heeds_connect hd folders options trace? s.libraries) hcomes
            (by simp [Server.follow, handle, hs]) hquiet
      | setTrace value =>
          have hheeds : Watched.Heeds e (watch e s (.request (.setTrace value))) := by
            refine .silent fun p x q hends => ?_
            exact (Project.logged_of_applyTrace (Project.Action.ends_log_bind_iff.1 hends)).documents
          exact h.of_heeds hwd hheeds hcomes (by simp [Server.follow, handle_setTrace, onProject_apply])
            hquiet
      | shutdown => exact absurd rfl hi
      | opened uri text =>
          exact h.of_heeds hwd (Project.heeds_update hd uri text).ignoring hcomes
            (by simp only [Server.follow, handle_opened, onProject_apply]) hquiet
      | edited uri texts =>
          cases htext : texts.getLast? with
          | none =>
              simp only [watch, htext] at hcomes ⊢
              exact h.of_heeds hwd (.pure ()) hcomes
                (by simp [Server.follow, handle, Server.edit, htext]; rfl) hquiet
          | some text =>
              simp only [watch, htext] at hcomes ⊢
              exact h.edit hd hwd htext hcomes
      | closed uri =>
          exact h.of_heeds hwd (Watched.heeds_closeDocument hd uri) hcomes
            (by simp only [Server.follow, handle_closed, onProject_apply]) hquiet
      | saved uri => exact h.of_heeds hwd (.pure ()) hcomes rfl hquiet
      | filesChanged changes =>
          exact h.of_heeds hwd (Watched.heeds_followFiles hd changes) hcomes
            (by simp only [Server.follow, handle_filesChanged, onProject_apply]) hquiet
      | foldersChanged added removed =>
          exact h.of_heeds hwd (Watched.heeds_changeFolders hd _ s.libraries) hcomes
            (by simp [Server.follow, handle, changeFolders_snd]) hquiet
  | passed time => exact h.advance hd hwd time hcomes

/-- In a whole run, what waits is scheduled or was tried. -/
theorem live (h : Waiting wd s ms) {inputs : List (Surroundings × Input τ)}
    (hinputs : ∀ i ∈ inputs, i.1.disk.Sane ∧ i.1.disk.workingPath = wd ∧
      i.2 ≠ .request .shutdown) :
    Waiting wd (Server.live s inputs) (ms ++ told s inputs) := by
  induction inputs generalizing s ms with
  | nil =>
      rw [told, List.append_nil]
      exact h
  | cons i inputs ih =>
      obtain ⟨hd, hwd, hi⟩ := hinputs i List.mem_cons_self
      rw [told, ← List.append_assoc]
      exact ih (h.follow hd hwd hi) fun j hj => hinputs j (List.mem_cons_of_mem _ hj)

end Waiting

/-- **Every change is compiled or waits to be.** A server with a quiet period is told anything, but
not to shut down, while the disk and the compiler may be other ones each time. If something waits to
be compiled in the end, a task to compile is scheduled, or an attempt to compile has ended without a
report, and the documents were not changed since. -/
theorem awaited_of_live [Add τ] [Sub τ] [DecidableLT τ] (connection : Connection) {quiet : τ}
    (hquiet : 0 < quiet) (libraries : List String) {inputs : List (Surroundings × Input τ)}
    (hinputs : ∀ i ∈ inputs, i.1.disk.Sane ∧ i.1.disk.workingPath = wd ∧
      i.2 ≠ .request .shutdown) :
    let s := live (start connection quiet libraries) inputs
    s.project.documents.dirty ≠ .empty →
      compileKey ∈ s.timer.pending ∨ Tried (told (start connection quiet libraries) inputs) := by
  intro s hdirty
  have hstart : Waiting wd (start connection quiet libraries) [] :=
    ⟨Documents.kept_cleared 0, by simp [Documents.Canonical, start, Project.start, Documents.empty,
      Keyed.empty], rfl, hquiet, .inl rfl⟩
  exact (hstart.live hinputs).awaited.resolve_left hdirty

/-- A document is edited, and before that is compiled, it is opened again with a function that has
no type. -/
def untyped : List (Surroundings × Input ℕ) := [
  (Board.desk, .request (.edited "file:///a.npl" ["package a"])),
  (Board.desk, .passed 3),
  (Board.desk, .request (.opened "file:///a.npl" "package a\nfunction f() -> f();"))]

/-- The server that is told so. -/
def tryingServer : Server ℕ :=
  live (start (.start .plain 30 false) 2 []) untyped

/-- The document waits, and nothing is scheduled: it was tried, and the compiler gave up. -/
theorem awaited_of_live_untyped :
    (0 : ℕ) < 2 ∧
    (∀ i ∈ untyped, i.1.disk.Sane ∧ i.1.disk.workingPath = Board.desk.disk.workingPath ∧
      i.2 ≠ .request .shutdown) ∧
    tryingServer.project.documents.dirty ≠ .empty ∧ compileKey ∉ tryingServer.timer.pending ∧
    Tried (told (start (.start .plain 30 false) 2 []) untyped) := by
  have hd : Board.desk.disk.Sane := ⟨by decide, by simp [Board.desk], by decide⟩
  have hinputs : ∀ i ∈ untyped, i.1.disk.Sane ∧
      i.1.disk.workingPath = Board.desk.disk.workingPath ∧ i.2 ≠ .request .shutdown := by
    simp [untyped, hd]
  have hdirty : tryingServer.project.documents.dirty ≠ .empty := by decide +kernel
  have hnone : compileKey ∉ tryingServer.timer.pending := by decide +kernel
  have hwaits := awaited_of_live (.start .plain 30 false) (by decide : (0 : ℕ) < 2) [] hinputs hdirty
  exact ⟨by decide, hinputs, hdirty, hnone, hwaits.resolve_left hnone⟩

end Server

end Npl
