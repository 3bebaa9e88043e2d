import Mathlib.Order.Defs.Unbundled
import Npl.Proofs.Project.Action

/-!
# Actions that respect a relation

What an action does to a project can often be told by a relation between the project before and the
project after, whether or not the action is refused half-way. If the relation is a preorder, it is
enough to tell this of the parts of the action.

## Main definitions

* `Project.Action.Respects` — before and after an action, the projects are related.

## Main results

* `Project.Action.Respects.bind`, `Project.Action.Respects.forM`, `Project.Action.Respects.tryCatch`
  — actions that are made of others.
-/

namespace Npl.Project.Action

variable {α β : Type} {R : Project → Project → Prop}

/-- Whatever the action comes to, the projects before and after it are related. -/
def Respects (R : Project → Project → Prop) (a : Action α) : Prop :=
  ∀ p x q, Ends a p x q → R p q

namespace Respects

/-- Dealing with the ways in which an action ends. -/
theorem related {a : Action α} (ha : Respects R a) {p q : Project} {x : Except Refusal α}
    (h : Ends a p x q) : R p q :=
  ha p x q h

theorem discard {a : Action α} (ha : Respects R a) : Respects R (Functor.discard a) := by
  intro p x q h
  obtain ⟨y, hy, -⟩ := ends_discard_iff.1 h
  exact ha.related hy

/-- Changes of the state. -/
theorem modifies {f : Project → Project} (hf : ∀ p, R p (f p)) :
    Respects R (modify f : Action PUnit) := by
  intro p x q h
  obtain ⟨-, rfl⟩ := (ends_iff_of_eq rfl).1 h
  exact hf p

/-- Writing to the log. -/
theorem log (hlog : ∀ p q, Logged p q → R p q) (r : LogRecord) : Respects R (Project.log r) := by
  intro p x q h
  obtain ⟨-, rfl⟩ := ends_log_iff.1 h
  exact hlog _ _ (.log p r)

section

variable [IsPreorder Project R]

/-- One action after another. -/
theorem bind {a : Action α} {f : α → Action β} (ha : Respects R a) (hf : ∀ x, Respects R (f x)) :
    Respects R (a >>= f) := by
  intro p x q h
  rcases ends_bind_iff.1 h with ⟨r, hr, -⟩ | ⟨y, mid, hy, hrest⟩
  · exact ha.related hr
  · exact trans_of R (ha.related hy) ((hf y).related hrest)

theorem pure (a : α) : Respects R (Pure.pure a : Action α) := by
  intro p x q h
  obtain ⟨-, rfl⟩ := ends_pure_iff.1 h
  exact refl_of R _

theorem answer (r : Except Refusal α) : Respects R (Project.answer r) := by
  intro p x q h
  obtain ⟨-, rfl⟩ := ends_answer_iff.1 h
  exact refl_of R _

theorem get : Respects R (MonadState.get : Action Project) := by
  intro p x q h
  obtain ⟨-, rfl⟩ := (ends_iff_of_eq rfl).1 h
  exact refl_of R _

/-- Doing something for each member of a list. -/
theorem forM {f : α → Action PUnit} (hf : ∀ a, Respects R (f a)) (as : List α) :
    Respects R (as.forM f) := by
  induction as with
  | nil => exact .pure _
  | cons a as ih => exact .bind (hf a) fun _ => ih

/-- Dealing with a refusal. -/
theorem tryCatch {a : Action α} {handler : Refusal → Action α} (ha : Respects R a)
    (hhandler : ∀ r, Respects R (handler r)) :
    Respects R (MonadExcept.tryCatch a handler) := by
  intro p x q h
  unfold Ends at h
  rw [tryCatch_apply] at h
  split at h
  · next y mid hy =>
      obtain ⟨-, rfl⟩ := Prod.mk.inj h
      exact ha.related hy
  · next r mid hr => exact trans_of R (ha.related hr) ((hhandler r).related h)

end

end Respects

end Npl.Project.Action
