/-!
# Totals

Sizes of nested things are totals over their parts.

## Main definitions

* `total` — the sum of natural numbers.

## Main results

* `total_append` — the total of two lists.
* `total_dropWhile_le` — the total of what is left when the front is left out.
-/

namespace Npl

/-- The sum of natural numbers. -/
def total : List Nat → Nat
  | [] => 0
  | n :: ns => n + total ns

@[simp] theorem total_nil : total [] = 0 := rfl

@[simp] theorem total_cons (n : Nat) (ns : List Nat) : total (n :: ns) = n + total ns := rfl

/-- The total of two lists is the sum of their totals. -/
@[simp] theorem total_append (ms ns : List Nat) : total (ms ++ ns) = total ms + total ns := by
  induction ms with
  | nil => simp
  | cons m ms ih => simp [ih, Nat.add_assoc]

/-- Leaving out what stands at the front makes a total no greater. -/
theorem total_dropWhile_le {α : Type} (p : α → Bool) (f : α → Nat) (xs : List α) :
    total ((xs.dropWhile p).map f) ≤ total (xs.map f) := by
  induction xs with
  | nil => simp
  | cons x xs ih =>
    rw [List.dropWhile_cons]
    split
    · simp only [List.map_cons, total_cons]
      omega
    · exact Nat.le_refl _

end Npl
