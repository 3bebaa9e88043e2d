import Npl.Proofs.Project.Operation
import Npl.Server

/-!
# Running the server

Most of what the server does is something that happens to its project. A run of the server is a list
of inputs: requests of the editor, and time that passes in between. An input that is refused
half-way leaves what it did before, and the next one goes on from there.

## Main definitions

* `Server.Input`, `Server.run` — what the server is told, and what becomes of it.
* `Project.connect`, `Project.changeFolders`, `Project.followFiles`, `Project.closeDocument`,
  `Project.attempt` — what happens to the project on some of these occasions.

## Main results

* `Server.onProject_bind` — happening to the project goes together with one thing after another.
* `Server.connect_snd`, `Server.changeFolders_snd`, `Server.handle_opened`, `Server.handle_closed`,
  `Server.handle_filesChanged`, `Server.advance_snd` — what happens to the project.
* `Server.edit_of_passed_over`, `Server.edit_of_taken_over` — an edit may compile at once or later.
* `Project.connect_cases` — the connection starts with one load of the project, or with none.
-/

namespace Npl

/-! ### What happens to the project -/

namespace Project

/-- Gives the connection another trace value, if there is one of that name. -/
def applyTrace (text : String) : Action Unit := do
  let t ← answer (Trace.ofText text)
  modify fun p => { p with display.connection :=
    (p.display.connection.setTrace t).syncLevel t serverName }

/-- Loads the project from the folders that the editor names. -/
def connect (e : Surroundings) (folders : List String) (options : Json) (trace? : Option String)
    (references : List String) : Action Unit := do
  trace?.forM applyTrace
  let (roots, records) := chooseFolders options folders
  records.forM log
  if roots.isEmpty then
    log (.ofPart "lsp" Level.warning "No workspace folders found to preload.")
  else
    log (.ofPart "lsp" Level.info
      ("Preloading sources for workspace folders: " ++ Text.quoteList roots))
    load e roots references

/-- Follows a change of the folders, which are the given ones then. -/
def changeFolders (e : Surroundings) (roots references : List String) : Action Unit := do
  log (.ofPart "lsp" Level.info ("Workspace folders changed: " ++ Text.quoteList roots))
  if roots.isEmpty then setRoots e [] else load e roots references

/-- Forgets those of the files that were deleted. -/
def followFiles (e : Surroundings) (changes : List (FileChange × String)) : Action Unit :=
  changes.forM fun (change, uri) => do
    if change = .deleted then
      log (.ofPart "lsp" Level.debug ("File deleted: " ++ uri))
      remove e uri

/-- Closes a document, and tells if it is gone. -/
def closeDocument (e : Surroundings) (uri : String) : Action Unit := do
  if ← close e uri then
    log (.ofPart "lsp" Level.debug ("Closed document " ++ uri ++ " no longer exists, removed"))

/-- Compiles because a task is due. A refusal is recorded and goes no further. -/
def attempt (e : Surroundings) (key : String) : Action Unit :=
  tryCatch (discard (recompile e)) fun refusal => log (Timer.failure key refusal.cause)

/-- The folders that are loaded when the connection starts: none if there is no trace value of the
name that is asked for. -/
def connectRoots (folders : List String) (options : Json) (trace? : Option String) : List String :=
  if trace?.all fun text => (Trace.ofText text).isOk then (chooseFolders options folders).1 else []

/-- Another trace value changes neither what was sent nor the documents. -/
theorem logged_of_applyTrace {p q : Project} {text : String} {x : Except Refusal Unit}
    (h : Action.Ends (applyTrace text) p x q) : Logged p q := by
  unfold applyTrace at h
  rw [Action.ends_answer_bind_iff] at h
  rcases h with ⟨r, -, -, rfl⟩ | ⟨t, -, h⟩
  · exact .refl _
  · obtain ⟨-, rfl⟩ := (Action.ends_iff_of_eq rfl).1 h
    exact ⟨rfl, List.prefix_refl _⟩

/-- Asking for a trace value is refused if there is none of that name. -/
theorem ends_trace {p q : Project} {trace? : Option String} {x : Except Refusal PUnit}
    (h : Action.Ends (trace?.forM applyTrace) p x q) :
    Logged p q ∧ ((trace?.all fun text => (Trace.ofText text).isOk) = true ↔ x = .ok ⟨⟩) := by
  cases trace? with
  | none =>
      obtain ⟨rfl, rfl⟩ := Action.ends_pure_iff.1 h
      exact ⟨.refl _, by simp⟩
  | some text =>
      refine ⟨logged_of_applyTrace h, ?_⟩
      change Action.Ends (applyTrace text) p x q at h
      unfold applyTrace at h
      rw [Action.ends_answer_bind_iff] at h
      rcases h with ⟨r, hr, rfl, -⟩ | ⟨t, ht, h⟩
      · simp [hr, Except.isOk, Except.toBool]
      · obtain ⟨rfl, -⟩ := (Action.ends_iff_of_eq rfl).1 h
        simp [ht, Except.isOk, Except.toBool]

/-- The connection starts without a load if there are no folders for that, and with one if there
are. -/
theorem connect_cases {e : Surroundings} {p q : Project} {folders : List String} {options : Json}
    {trace? : Option String} {references : List String} {x : Except Refusal Unit}
    (h : Action.Ends (connect e folders options trace? references) p x q) :
    (connectRoots folders options trace? = [] ∧ Logged p q) ∨
      ∃ mid, connectRoots folders options trace? ≠ [] ∧ Logged p mid ∧
        Action.Ends (load e (connectRoots folders options trace?) references) mid x q := by
  unfold connect at h
  unfold connectRoots
  generalize chooseFolders options folders = chosen at h ⊢
  rcases Action.ends_bind_iff.1 h with ⟨r, hr, -⟩ | ⟨u, mid, htraced, h⟩
  · obtain ⟨hlogged, hknown⟩ := ends_trace hr
    exact .inl ⟨if_neg fun hall => absurd (hknown.1 hall) (by simp), hlogged⟩
  obtain ⟨hmid, hknown⟩ := ends_trace htraced
  rw [if_pos (hknown.2 rfl)]
  rcases Action.ends_bind_iff.1 h with ⟨r, hr, -⟩ | ⟨u', mid', hrecords, h⟩
  · exact absurd (Action.logged_of_ends_forM hr).1 (by simp)
  have hmid' := hmid.trans (Action.logged_of_ends_forM hrecords).2
  split at h
  · next hnone =>
      obtain ⟨-, rfl⟩ := Action.ends_log_iff.1 h
      exact .inl ⟨List.isEmpty_iff.1 hnone, hmid'.trans (.log _ _)⟩
  · next hsome =>
      rw [Action.ends_log_bind_iff] at h
      exact .inr ⟨_, fun hnone => hsome (List.isEmpty_iff.2 hnone), hmid'.trans (.log _ _), h⟩

/-- An attempt comes to what recompiling comes to, but for the log, and is never refused. -/
theorem attempt_cases {e : Surroundings} {p q : Project} {key : String} {x : Except Refusal Unit}
    (h : Action.Ends (attempt e key) p x q) :
    x = .ok () ∧ ∃ y mid, Action.Ends (recompile e) p y mid ∧ Logged mid q := by
  unfold Action.Ends attempt at h
  rw [tryCatch_apply, discard_apply] at h
  suffices hx : x = .ok () ∧ Logged (recompile e p).2 q from ⟨hx.1, _, _, rfl, hx.2⟩
  cases hx : (recompile e p).1 with
  | ok y =>
      rw [hx] at h
      obtain ⟨rfl, rfl⟩ := Prod.mk.inj h
      exact ⟨rfl, .refl _⟩
  | error r =>
      rw [hx] at h
      obtain ⟨rfl, rfl⟩ := Action.ends_log_iff.1 h
      exact ⟨rfl, .log _ _⟩

end Project

namespace Server

variable {τ α β : Type}

/-! ### Doing something with the project -/

theorem onProject_apply (a : Project.Action α) (s : Server τ) :
    onProject a s = ((a s.project).1, { s with project := (a s.project).2 }) := rfl

/-- One thing after another that happens to the project. -/
theorem onProject_bind (a : Project.Action α) (f : α → Project.Action β) :
    (onProject (a >>= f) : Action τ β) = onProject a >>= fun x => onProject (f x) := by
  funext s
  rw [bind_apply, onProject_apply, onProject_apply, bind_apply]
  cases a s.project with
  | mk x p => cases x <;> rfl

theorem onProject_discard (a : Project.Action α) :
    (onProject (discard a) : Action τ PUnit) = discard (onProject a) := by
  funext s
  rw [discard_apply, onProject_apply, onProject_apply, discard_apply]

/-- Something that happens to the project for each member of a list. -/
theorem onProject_forM (f : α → Project.Action PUnit) (as : List α) :
    (onProject (as.forM f) : Action τ PUnit) = as.forM fun a => onProject (f a) := by
  induction as with
  | nil => rfl
  | cons a as ih =>
      change onProject (f a >>= fun _ => as.forM f) = onProject (f a) >>= fun _ => _
      rw [onProject_bind, ih]

/-- Something that happens to the project on some condition. -/
theorem onProject_ite (c : Prop) [Decidable c] (a b : Project.Action α) :
    (onProject (if c then a else b) : Action τ α) = if c then onProject a else onProject b := by
  split
  · rfl
  · rfl

/-! ### Requests -/

/-- The connection starts with what happens to the project, and with other roots at most. -/
theorem connect_snd (e : Surroundings) (folders : List String) (options : Json)
    (trace? : Option String) (s : Server τ) :
    ∃ roots, (connect e folders options trace? s).2 =
      { s with
        project := (Project.connect e folders options trace? s.libraries s.project).2
        roots } := by
  have htrace : (trace?.forM applyTrace : Action τ PUnit) =
      onProject (trace?.forM Project.applyTrace) := by
    cases trace? with
    | none => rfl
    | some text => exact (onProject_bind _ _).symm
  have hrecords : ∀ rs : List LogRecord, (rs.forM log : Action τ PUnit) =
      onProject (rs.forM Project.log) := fun rs => (onProject_forM _ rs).symm
  unfold connect Project.connect
  rw [htrace, bind_apply, bind_apply, onProject_apply]
  rcases (trace?.forM Project.applyTrace) s.project with ⟨r | u, p⟩
  · exact ⟨s.roots, rfl⟩
  generalize chooseFolders options folders = chosen
  obtain ⟨roots, records⟩ := chosen
  simp only
  rw [hrecords, bind_apply, bind_apply, onProject_apply]
  simp only
  rcases (records.forM Project.log) p with ⟨r | u', p'⟩
  · exact ⟨s.roots, rfl⟩
  simp only
  split
  · exact ⟨s.roots, rfl⟩
  · exact ⟨roots, rfl⟩

/-- A change of the folders is what happens to the project, and other roots. -/
theorem changeFolders_snd (e : Surroundings) (added removed : List String) (s : Server τ) :
    (changeFolders e added removed s).2 =
      { s with
        project := (Project.changeFolders e (changeRoots s.roots added removed) s.libraries
          s.project).2
        roots := changeRoots s.roots added removed } := by
  unfold changeFolders Project.changeFolders
  rw [get_bind_apply, bind_apply, bind_apply]
  generalize changeRoots s.roots added removed = roots
  change ((if roots.isEmpty = true then modify (fun s => { s with roots }) >>= fun _ =>
    onProject (Project.setRoots e []) else loadRoots e roots) _).2 = _
  split
  · rfl
  · rfl

section

variable [Add τ] [LT τ] [DecidableLT τ] [OfNat τ 0] (e : Surroundings)

theorem handle_setTrace (value : String) :
    (handle e (.setTrace value) : Action τ Unit) = onProject (do
      Project.log (.ofPart "lsp" Level.info ("Setting trace value to: " ++ traceTitle value))
      Project.applyTrace value) := by
  rw [onProject_bind]
  unfold Project.applyTrace
  simp only [onProject_bind]
  rfl

theorem handle_opened (uri text : String) :
    (handle e (.opened uri text) : Action τ Unit) =
      onProject (discard (Project.update e uri text true)) :=
  (onProject_discard _).symm

theorem handle_closed (uri : String) :
    (handle e (.closed uri) : Action τ Unit) = onProject (Project.closeDocument e uri) := by
  unfold Project.closeDocument
  rw [onProject_bind]
  simp only [onProject_ite]
  rfl

theorem handle_filesChanged (changes : List (FileChange × String)) :
    (handle e (.filesChanged changes) : Action τ Unit) =
      onProject (Project.followFiles e changes) := by
  unfold Project.followFiles
  rw [onProject_forM]
  refine congrArg (changes.forM ·) (funext fun (change, uri) => ?_)
  simp only [onProject_ite, onProject_bind]
  rfl

end

/-! ### Edits -/

/-- Putting off a compilation only gives the timer a task, unless it is stopped. -/
theorem compileLater_of_schedule [Add τ] (uri : String) {s : Server τ} {timer : Timer τ Unit}
    (h : s.timer.schedule s.now compileKey () none = some timer) :
    (compileLater uri s).2 = { s with timer } := by
  unfold compileLater
  rw [get_bind_apply]
  simp only [h]
  rfl

/-- Putting off a compilation writes to the log at most. -/
theorem logged_of_compileLater [Add τ] (uri : String) (s : Server τ) :
    Project.Logged s.project (compileLater uri s).2.project := by
  unfold compileLater
  rw [get_bind_apply]
  cases s.timer.schedule s.now compileKey () none with
  | none => exact .log _ _
  | some timer => exact .refl _

section

variable [Add τ] [LT τ] [DecidableLT τ] [OfNat τ 0] {e : Surroundings} {s : Server τ}

/-- An edit that is not taken over comes to no more than that. -/
theorem edit_of_passed_over {uri text : String} {texts : List String}
    (htext : texts.getLast? = some text) {x : Except Refusal Bool} {p : Project}
    (h : Project.Action.Ends (Project.update e uri text false) s.project x p) (hx : x ≠ .ok true) :
    (edit e uri texts s).2 = { s with project := p } := by
  have hupdate : Project.update e uri text false s.project = (x, p) := h
  unfold edit
  simp only [htext]
  rw [bind_apply, onProject_apply, hupdate]
  match x, hx with
  | .error r, _ => rfl
  | .ok false, _ => rfl

/-- An edit that is taken over is compiled at once or later. -/
theorem edit_of_taken_over {uri text : String} {texts : List String}
    (htext : texts.getLast? = some text) {p : Project}
    (h : Project.Action.Ends (Project.update e uri text false) s.project (.ok true) p) :
    (edit e uri texts s).2 =
      if 0 < s.quiet then (compileLater uri { s with project := p }).2
      else { s with project := (Project.recompile e p).2 } := by
  have hupdate : Project.update e uri text false s.project = (.ok true, p) := h
  unfold edit
  simp only [htext]
  rw [bind_apply, onProject_apply, hupdate]
  simp only [if_true]
  change ((if 0 < s.quiet then compileLater uri else
    discard (onProject (Project.recompile e))) { s with project := p }).2 = _
  split
  · rfl
  · rw [discard_apply, onProject_apply]

end

/-! ### Time -/

/-- A task compiles. -/
theorem runTask_eq (e : Surroundings) (key : String) :
    (runTask e key : Action τ Unit) = onProject (Project.attempt e key) := by
  funext s
  unfold runTask Project.attempt
  rw [tryCatch_apply, ← onProject_discard, onProject_apply, onProject_apply, tryCatch_apply]
  cases discard (Project.recompile e) s.project with
  | mk x p => cases x <;> rfl

/-- While time passes, tasks are done. -/
theorem advance_snd [Add τ] [Sub τ] [LT τ] [DecidableLT τ] (e : Surroundings) (time : τ)
    (s : Server τ) :
    (advance e time s).2 =
      { s with
        now := s.now + time
        timer := (s.timer.takeDue (s.now + time)).2
        project := (((s.timer.takeDue (s.now + time)).1.forM fun task =>
          Project.attempt e task.key) s.project).2 } := by
  have htasks : ∀ tasks : List (Task τ Unit),
      (tasks.forM fun task => runTask e task.key : Action τ PUnit) =
        onProject (tasks.forM fun task => Project.attempt e task.key) := by
    intro tasks
    simp only [onProject_forM, runTask_eq]
  have hadvance : (advance e time : Action τ (Wait τ)) s =
      (onProject ((s.timer.takeDue (s.now + time)).1.forM fun task =>
        Project.attempt e task.key) >>= fun _ => get >>= fun later =>
          pure (later.timer.wait (s.now + time)))
        { s with now := s.now + time, timer := (s.timer.takeDue (s.now + time)).2 } := by
    rw [← htasks]
    rfl
  rw [hadvance, bind_apply, onProject_apply]
  split
  · next x mid hx =>
      obtain ⟨-, rfl⟩ := Prod.mk.inj hx
      rfl
  · next r mid hr =>
      obtain ⟨-, rfl⟩ := Prod.mk.inj hr
      rfl

/-! ### Runs -/

/-- What the server is told: a request of the editor, or that time passes. -/
inductive Input (τ : Type)
  | request (r : Request)
  | passed (time : τ)

variable [Add τ] [Sub τ] [LT τ] [DecidableLT τ] [OfNat τ 0]

/-- What becomes of the server when it is told something, refused or not. -/
def follow (e : Surroundings) (s : Server τ) : Input τ → Server τ
  | .request r => (handle e r s).2
  | .passed time => (advance e time s).2

/-- What becomes of the server when it is told one thing after the other. -/
def run (e : Surroundings) (s : Server τ) (inputs : List (Input τ)) : Server τ :=
  inputs.foldl (follow e) s

end Server

end Npl
