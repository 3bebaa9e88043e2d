import Npl.Proofs.Project.History
import Npl.Proofs.Server.Run

/-!
# What a run of the server keeps

All that the server does with its project is an operation, writing to the log, or giving the
connection another trace value. So a relation between projects that is respected by these is
respected by whatever the server is told, and by any number of inputs.

## Main definitions

* `Server.Upkeep` — operations, the log and trace values respect a relation.

## Main results

* `Server.Upkeep.follow`, `Server.Upkeep.run` — then all inputs respect it.
* `Server.orderly_run`, `Server.faithful_run` — in any run the documents are kept well under their
  canonical URIs, and the editor shows what the board holds.
* `Server.settings_run` — a run changes neither the quiet period nor the library references.
-/

namespace Npl

open Project.Action (Ends Respects)

namespace Project.Action.Respects

/-- What is respected if the result is ignored. -/
theorem of_discard {α : Type} {R : Project → Project → Prop} {a : Action α}
    (h : Respects R (Functor.discard a)) : Respects R a := by
  intro p x q hends
  exact h p (x.map fun _ => ⟨⟩) q (ends_discard_iff.2 ⟨x, hends, rfl⟩)

end Project.Action.Respects

namespace Server

variable {τ : Type} {e : Surroundings} {R : Project → Project → Prop}

/-- Operations, writing to the log and other trace values respect a relation. -/
structure Upkeep (e : Surroundings) (R : Project → Project → Prop) : Prop where
  log : ∀ r, Respects R (Project.log r)
  trace : ∀ text, Respects R (Project.applyTrace text)
  operation : ∀ op : Project.Operation, Respects R (op.act e)

namespace Upkeep

theorem update (h : Upkeep e R) (uri content : String) (compileNow : Bool) :
    Respects R (Project.update e uri content compileNow) :=
  .of_discard (h.operation (.update uri content compileNow))

theorem recompile (h : Upkeep e R) : Respects R (Project.recompile e) :=
  .of_discard (h.operation .recompile)

section

variable [IsPreorder Project R]

theorem connect (h : Upkeep e R) (folders : List String) (options : Json) (trace? : Option String)
    (references : List String) :
    Respects R (Project.connect e folders options trace? references) := by
  have htrace : Respects R (trace?.forM Project.applyTrace) := by
    cases trace? with
    | none => exact .pure _
    | some text => exact h.trace text
  unfold Project.connect
  generalize chooseFolders options folders = chosen
  refine .bind htrace fun _ => .bind (.forM h.log _) fun _ => ?_
  split
  · exact h.log _
  · exact .bind (h.log _) fun _ => h.operation (.load _ _)

theorem changeFolders (h : Upkeep e R) (roots references : List String) :
    Respects R (Project.changeFolders e roots references) := by
  refine .bind (h.log _) fun _ => ?_
  split
  · exact h.operation (.setRoots [])
  · exact h.operation (.load roots references)

theorem followFiles (h : Upkeep e R) (changes : List (FileChange × String)) :
    Respects R (Project.followFiles e changes) := by
  refine .forM (fun (change, uri) => ?_) changes
  simp only
  split
  · exact .bind (h.log _) fun _ => h.operation (.remove uri)
  · exact .pure _

theorem closeDocument (h : Upkeep e R) (uri : String) :
    Respects R (Project.closeDocument e uri) := by
  refine .bind (.of_discard (h.operation (.close uri))) fun gone => ?_
  split
  · exact h.log _
  · exact .pure _

theorem attempt (h : Upkeep e R) (key : String) : Respects R (Project.attempt e key) :=
  .tryCatch h.recompile.discard fun _ => h.log _

end

/-- Putting off a compilation writes to the log at most. -/
theorem compileLater [IsPreorder Project R] [Add τ] (h : Upkeep e R) (uri : String)
    (s : Server τ) : R s.project (Server.compileLater uri s).2.project := by
  unfold Server.compileLater
  rw [get_bind_apply]
  cases s.timer.schedule s.now compileKey () none with
  | none => exact (h.log _).related (rfl : Ends (Project.log _) s.project _ _)
  | some timer => exact refl_of R _

section

variable [IsPreorder Project R] [Add τ] [LT τ] [DecidableLT τ] [OfNat τ 0]

theorem edit (h : Upkeep e R) (uri : String) (texts : List String) (s : Server τ) :
    R s.project (Server.edit e uri texts s).2.project := by
  cases htext : texts.getLast? with
  | none =>
      simp only [Server.edit, htext]
      exact refl_of R s.project
  | some text =>
      obtain ⟨x, p, hp⟩ : ∃ x p, Ends (Project.update e uri text false) s.project x p := ⟨_, _, rfl⟩
      have hupdate := (h.update uri text false).related hp
      by_cases hx : x = .ok true
      · subst hx
        rw [edit_of_taken_over htext hp]
        split
        · have hlater := h.compileLater uri { s with project := p }
          exact trans_of R hupdate hlater
        · exact trans_of R hupdate (h.recompile.related (Prod.ext rfl rfl))
      · rw [edit_of_passed_over htext hp hx]
        exact hupdate

/-- Whatever the server is told respects the relation. -/
theorem follow [Sub τ] (h : Upkeep e R) (s : Server τ) (i : Input τ) :
    R s.project (Server.follow e s i).project := by
  cases i with
  | request r =>
      cases r with
      | connect folders options trace? =>
          obtain ⟨roots, hs⟩ := connect_snd e folders options trace? s
          simp only [Server.follow, handle, hs]
          exact (h.connect folders options trace? s.libraries).related (Prod.ext rfl rfl)
      | setTrace value =>
          simp only [Server.follow, handle_setTrace]
          exact Respects.related (.bind (h.log _) fun _ => h.trace value) (Prod.ext rfl rfl)
      | shutdown => exact (h.log _).related (Prod.ext rfl rfl)
      | opened uri text =>
          simp only [Server.follow, handle_opened]
          exact (h.update uri text true).discard.related (Prod.ext rfl rfl)
      | edited uri texts => exact h.edit uri texts s
      | closed uri =>
          simp only [Server.follow, handle_closed]
          exact (h.closeDocument uri).related (Prod.ext rfl rfl)
      | saved uri => exact refl_of R s.project
      | filesChanged changes =>
          simp only [Server.follow, handle_filesChanged]
          exact (h.followFiles changes).related (Prod.ext rfl rfl)
      | foldersChanged added removed =>
          simp only [Server.follow, handle, changeFolders_snd]
          exact (h.changeFolders _ _).related (Prod.ext rfl rfl)
  | passed time =>
      simp only [Server.follow, advance_snd]
      exact Respects.related (.forM (fun task : Task τ Unit => h.attempt task.key) _)
        (Prod.ext rfl rfl)

/-- A whole run respects the relation. -/
theorem run [Sub τ] (h : Upkeep e R) (s : Server τ) (inputs : List (Input τ)) :
    R s.project (Server.run e s inputs).project := by
  induction inputs generalizing s with
  | nil => exact refl_of R s.project
  | cons i inputs ih => exact trans_of R (h.follow s i) (ih _)

end

end Upkeep

/-! ### Documents and diagnostics -/

theorem upkeep_orderly (hd : e.disk.Sane) : Upkeep e fun p q => p.Orderly e → q.Orderly e where
  log := .log fun _ _ h hp => hp.of_same h.documents
  trace := fun _ _ _ _ h hp => hp.of_same (Project.logged_of_applyTrace h).documents
  operation := fun _ _ _ _ h hp => Project.orderly_of_ends hd hp h

theorem upkeep_faithful (client : Client) (e : Surroundings) :
    Upkeep e fun p q => Board.Faithful client p → Board.Faithful client q where
  log := Project.inStep_log
  trace := fun _ => .bind (.answer _) fun _ => .modifies fun _ hp => hp.of_same rfl rfl rfl
  operation := Project.inStep_operation

section

variable [Add τ] [Sub τ] [LT τ] [DecidableLT τ] [OfNat τ 0]

/-- In any run, the documents are kept well under their canonical URIs. -/
theorem orderly_run (hd : e.disk.Sane) (connection : Connection) (quiet : τ)
    (libraries : List String) (inputs : List (Input τ)) :
    (run e (start connection quiet libraries) inputs).project.Orderly e :=
  (upkeep_orderly hd).run _ _ (Project.orderly_start connection).1

/-- In any run, the editor shows what the board holds. -/
theorem faithful_run (e : Surroundings) (client : Client) (topLevel : Nat) (forwarding : Bool)
    (quiet : τ) (libraries : List String) (inputs : List (Input τ)) :
    Board.Faithful client
      (run e (start (.start client topLevel forwarding) quiet libraries) inputs).project :=
  (upkeep_faithful client e).run _ _ (Board.faithful_start client topLevel forwarding)

end

/-! ### Settings -/

/-- Putting off a compilation changes no setting. -/
theorem settings_compileLater [Add τ] (uri : String) (s : Server τ) :
    (compileLater uri s).2.quiet = s.quiet ∧ (compileLater uri s).2.libraries = s.libraries := by
  unfold compileLater
  rw [get_bind_apply]
  cases s.timer.schedule s.now compileKey () none with
  | none => exact ⟨rfl, rfl⟩
  | some timer => exact ⟨rfl, rfl⟩

section

variable [Add τ] [LT τ] [DecidableLT τ] [OfNat τ 0]

/-- An edit changes no setting. -/
theorem settings_edit (uri : String) (texts : List String) (s : Server τ) :
    (edit e uri texts s).2.quiet = s.quiet ∧ (edit e uri texts s).2.libraries = s.libraries := by
  cases htext : texts.getLast? with
  | none =>
      simp only [edit, htext]
      exact ⟨rfl, rfl⟩
  | some text =>
      obtain ⟨x, p, hp⟩ : ∃ x p, Ends (Project.update e uri text false) s.project x p := ⟨_, _, rfl⟩
      by_cases hx : x = .ok true
      · subst hx
        rw [edit_of_taken_over htext hp]
        split
        · exact settings_compileLater uri _
        · exact ⟨rfl, rfl⟩
      · rw [edit_of_passed_over htext hp hx]
        exact ⟨rfl, rfl⟩

variable [Sub τ]

/-- Nothing that the server is told changes the quiet period or the library references. -/
theorem settings_follow (e : Surroundings) (s : Server τ) (i : Input τ) :
    (follow e s i).quiet = s.quiet ∧ (follow e s i).libraries = s.libraries := by
  cases i with
  | request r =>
      cases r with
      | connect folders options trace? =>
          obtain ⟨roots, hs⟩ := connect_snd e folders options trace? s
          simp [follow, handle, hs]
      | edited uri texts => exact settings_edit uri texts s
      | setTrace value =>
          simp only [follow, handle_setTrace]
          exact ⟨rfl, rfl⟩
      | opened uri text =>
          simp only [follow, handle_opened]
          exact ⟨rfl, rfl⟩
      | closed uri =>
          simp only [follow, handle_closed]
          exact ⟨rfl, rfl⟩
      | filesChanged changes =>
          simp only [follow, handle_filesChanged]
          exact ⟨rfl, rfl⟩
      | foldersChanged added removed =>
          simp [follow, handle, changeFolders_snd]
      | saved | shutdown => exact ⟨rfl, rfl⟩
  | passed time =>
      simp [follow, advance_snd]

theorem settings_run (e : Surroundings) (s : Server τ) (inputs : List (Input τ)) :
    (run e s inputs).quiet = s.quiet ∧ (run e s inputs).libraries = s.libraries := by
  induction inputs generalizing s with
  | nil => exact ⟨rfl, rfl⟩
  | cons i inputs ih =>
      obtain ⟨hquiet, hlibraries⟩ := ih (follow e s i)
      obtain ⟨hquiet', hlibraries'⟩ := settings_follow e s i
      exact ⟨hquiet.trans hquiet', hlibraries.trans hlibraries'⟩

end

end Server

end Npl
