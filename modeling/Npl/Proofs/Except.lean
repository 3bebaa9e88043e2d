/-!
# Results and refusals

What it takes that a chain of steps, each of which may be refused, comes to a result.

## Main results

* `bind_eq_ok_iff`, `bind_eq_error_iff` — one step after another.
* `mapM_eq_ok_iff`, `mapM_eq_error_iff`, `filterM_eq_ok_iff` — a step for each member of a list.
* `bind_apply` — one step after another, each of which has a state to go on from.
-/

namespace Npl

variable {ε α β : Type}

/-- Two steps come to a result if both do. -/
theorem bind_eq_ok_iff {x : Except ε α} {f : α → Except ε β} {b : β} :
    (x >>= f) = .ok b ↔ ∃ a, x = .ok a ∧ f a = .ok b := by
  cases x with
  | error e => simp [Bind.bind, Except.bind]
  | ok a => simp [Bind.bind, Except.bind]

/-- Two steps are refused if the first one is, or the second one is behind the first. -/
theorem bind_eq_error_iff {x : Except ε α} {f : α → Except ε β} {r : ε} :
    (x >>= f) = .error r ↔ x = .error r ∨ ∃ a, x = .ok a ∧ f a = .error r := by
  cases x with
  | error e => simp [Bind.bind, Except.bind]
  | ok a => simp [Bind.bind, Except.bind]

@[simp] theorem pure_eq_ok_iff {a b : α} : (pure a : Except ε α) = .ok b ↔ a = b := by
  simp [Pure.pure, Except.pure]

@[simp] theorem pure_ne_error {a : α} {r : ε} : (pure a : Except ε α) ≠ .error r := by
  simp [Pure.pure, Except.pure]

theorem mapError_eq_ok_iff {ε' : Type} {x : Except ε α} {f : ε → ε'} {a : α} :
    x.mapError f = .ok a ↔ x = .ok a := by
  cases x with
  | error e =>
      change Except.error (f e) = .ok a ↔ _
      simp
  | ok b =>
      change Except.ok b = .ok a ↔ _
      simp

theorem mapError_eq_error_iff {ε' : Type} {x : Except ε α} {f : ε → ε'} {r : ε'} :
    x.mapError f = .error r ↔ ∃ e, x = .error e ∧ f e = r := by
  cases x with
  | error e =>
      change Except.error (f e) = .error r ↔ _
      simp
  | ok b =>
      change Except.ok b = .error r ↔ _
      simp

theorem toOption_eq_some_iff {x : Except ε α} {a : α} : x.toOption = some a ↔ x = .ok a := by
  cases x <;> simp [Except.toOption]

theorem map_eq_error_iff {x : Except ε α} {f : α → β} {r : ε} :
    x.map f = .error r ↔ x = .error r := by
  cases x <;> simp [Except.map]

theorem map_eq_ok_iff {x : Except ε α} {f : α → β} {b : β} :
    x.map f = .ok b ↔ ∃ a, x = .ok a ∧ f a = b := by
  cases x <;> simp [Except.map]

/-- A step for each member of a list comes to the list of the results. -/
theorem mapM_eq_ok_iff {f : α → Except ε β} {as : List α} {bs : List β} :
    as.mapM f = .ok bs ↔ as.map f = bs.map .ok := by
  induction as generalizing bs with
  | nil => cases bs <;> simp
  | cons a as ih =>
      rw [List.mapM_cons, bind_eq_ok_iff]
      constructor
      · rintro ⟨b, hb, htail⟩
        obtain ⟨bs', hbs, hpure⟩ := bind_eq_ok_iff.1 htail
        obtain rfl := pure_eq_ok_iff.1 hpure
        simp [hb, ih.1 hbs]
      · cases bs with
        | nil => simp
        | cons b bs =>
            intro h
            simp only [List.map_cons, List.cons.injEq] at h
            refine ⟨b, h.1, bind_eq_ok_iff.2 ⟨bs, ih.2 h.2, rfl⟩⟩

/-- A step for each member of a list is refused if the step is for one of them, and not for those
before it. -/
theorem mapM_eq_error_iff {f : α → Except ε β} {as : List α} {r : ε} :
    as.mapM f = .error r ↔ ∃ before a after, as = before ++ a :: after ∧
      (∀ b ∈ before, ∃ v, f b = .ok v) ∧ f a = .error r := by
  induction as with
  | nil => simp
  | cons a as ih =>
      rw [List.mapM_cons, bind_eq_error_iff]
      simp only [bind_eq_error_iff, pure_ne_error, and_false, exists_false, or_false, ih]
      constructor
      · rintro (ha | ⟨v, hv, before, a', after, rfl, hbefore, ha'⟩)
        · exact ⟨[], a, as, rfl, by simp, ha⟩
        · exact ⟨a :: before, a', after, rfl, List.forall_mem_cons.2 ⟨⟨v, hv⟩, hbefore⟩, ha'⟩
      · rintro ⟨before, a', after, heq, hbefore, ha'⟩
        cases before with
        | nil =>
            obtain ⟨rfl, rfl⟩ := List.cons.inj heq
            exact .inl ha'
        | cons b before =>
            obtain ⟨rfl, rfl⟩ := List.cons.inj heq
            obtain ⟨⟨v, hv⟩, hbefore⟩ := List.forall_mem_cons.1 hbefore
            exact .inr ⟨v, hv, before, a', after, rfl, hbefore, ha'⟩

/-- A step for each member of a list is refused only because the step is for one of them. -/
theorem exists_of_mapM_eq_error {f : α → Except ε β} {as : List α} {r : ε}
    (h : as.mapM f = .error r) : ∃ a ∈ as, f a = .error r := by
  obtain ⟨before, a, after, rfl, -, ha⟩ := mapM_eq_error_iff.1 h
  exact ⟨a, by simp, ha⟩

/-! ### Steps with a state -/

section State

variable {σ : Type} (a : ExceptT ε (StateM σ) α) (s : σ)

/-- One step after another: the second one goes on from where the first one ended, unless that was
refused. -/
theorem bind_apply (f : α → ExceptT ε (StateM σ) β) :
    (a >>= f) s = match a s with
      | (.ok x, mid) => f x mid
      | (.error r, mid) => (.error r, mid) := by
  change ExceptT.bindCont f (a s).1 (a s).2 = _
  cases a s with
  | mk x mid => cases x <;> rfl

/-- Looking at the state. -/
theorem get_bind_apply (f : σ → ExceptT ε (StateM σ) β) : (get >>= f) s = f s s := rfl

/-- Ignoring the result. -/
theorem discard_apply : (discard a) s = ((a s).1.map fun _ => ⟨⟩, (a s).2) := by
  change ExceptT.map (m := StateM σ) (Function.const α PUnit.unit) a s = _
  simp only [ExceptT.map, ExceptT.mk, Bind.bind, StateT.bind]
  cases a s with
  | mk x mid => cases x <;> rfl

/-- A refusal that is dealt with. -/
theorem tryCatch_apply (handler : ε → ExceptT ε (StateM σ) α) :
    (tryCatch a handler) s = match a s with
      | (.ok x, mid) => (.ok x, mid)
      | (.error r, mid) => handler r mid := by
  simp only [tryCatch, tryCatchThe, MonadExceptOf.tryCatch, ExceptT.tryCatch, ExceptT.mk, Bind.bind,
    StateT.bind]
  cases a s with
  | mk x mid => cases x <;> rfl

end State

/-! ### Choosing -/

/-- Whether a step comes to a yes. -/
def isYes : Except ε Bool → Bool
  | .ok b => b
  | .error _ => false

theorem isYes_eq_true_iff {x : Except ε Bool} : isYes x = true ↔ x = .ok true := by
  cases x <;> simp [isYes]

theorem filterAuxM_eq_ok_iff {f : α → Except ε Bool} {as chosen bs : List α} :
    List.filterAuxM f as chosen = .ok bs ↔
      (∀ a ∈ as, ∃ b, f a = .ok b) ∧ bs = (as.filter fun a => isYes (f a)).reverse ++ chosen := by
  induction as generalizing chosen with
  | nil =>
      rw [List.filterAuxM, pure_eq_ok_iff]
      simp [eq_comm]
  | cons a as ih =>
      rw [List.filterAuxM, bind_eq_ok_iff]
      constructor
      · rintro ⟨b, hb, htail⟩
        obtain ⟨hall, rfl⟩ := ih.1 htail
        refine ⟨?_, ?_⟩
        · intro a' ha'
          rcases List.mem_cons.1 ha' with rfl | hmem
          · exact ⟨b, hb⟩
          · exact hall a' hmem
        · cases b <;> simp [hb, isYes]
      · rintro ⟨hall, rfl⟩
        obtain ⟨b, hb⟩ := hall a List.mem_cons_self
        refine ⟨b, hb, ih.2 ⟨fun a' ha' => hall a' (List.mem_cons_of_mem _ ha'), ?_⟩⟩
        cases b <;> simp [hb, isYes]

/-- Choosing members of a list comes to the members chosen, unless the choice is refused for one. -/
theorem filterM_eq_ok_iff {f : α → Except ε Bool} {as bs : List α} :
    as.filterM f = .ok bs ↔
      (∀ a ∈ as, ∃ b, f a = .ok b) ∧ bs = as.filter fun a => isYes (f a) := by
  rw [List.filterM, bind_eq_ok_iff]
  constructor
  · rintro ⟨cs, hcs, hpure⟩
    obtain ⟨hall, rfl⟩ := filterAuxM_eq_ok_iff.1 hcs
    obtain rfl := pure_eq_ok_iff.1 hpure
    exact ⟨hall, by simp⟩
  · rintro ⟨hall, rfl⟩
    exact ⟨_, filterAuxM_eq_ok_iff.2 ⟨hall, rfl⟩, by simp⟩

/-- If choosing members of a list is refused, it is refused for one of them. -/
theorem exists_of_filterM_eq_error {f : α → Except ε Bool} {as : List α} {r : ε}
    (h : as.filterM f = .error r) : ∃ a ∈ as, f a = .error r := by
  have haux : ∀ chosen, List.filterAuxM f as chosen = .error r → ∃ a ∈ as, f a = .error r := by
    clear h
    induction as with
    | nil =>
        intro chosen h
        rw [List.filterAuxM] at h
        exact absurd h pure_ne_error
    | cons a as ih =>
        intro chosen h
        rw [List.filterAuxM] at h
        rcases bind_eq_error_iff.1 h with ha | ⟨b, -, htail⟩
        · exact ⟨a, List.mem_cons_self, ha⟩
        · obtain ⟨a', ha', hr⟩ := ih _ htail
          exact ⟨a', List.mem_cons_of_mem _ ha', hr⟩
  rw [List.filterM] at h
  rcases bind_eq_error_iff.1 h with hchosen | ⟨chosen, -, hpure⟩
  · exact haux [] hchosen
  · exact absurd hpure pure_ne_error

end Npl
