import Npl.Decimal.Shortest

/-!
# Rounded decimals

A number can be shown with as many digits as one likes. The decimal with that many digits that is
closest to the number is taken, and if two are equally close, the one with the even last digit. What is
rounded is the exact value of the double, however many digits that has.

## Main definitions

* `Ratio.nearest` — the natural number closest to a fraction.
* `Decimal.toPlaces` — a number with a given number of digits behind the point.
* `Decimal.toDigits` — a number with a given number of digits in all.

## Main results

* `Ratio.nearest_le`, `Ratio.le_nearest` — the closest number is at most half a unit away.
-/

namespace Npl

namespace Ratio

/-- The natural number closest to a fraction. -/
def nearest (r : Ratio) : Nat :=
  let below := r.num / r.den
  let twice := 2 * (r.num % r.den)
  if twice < r.den || twice = r.den && below % 2 = 0 then below else below + 1

/-- The closest number is at most half a unit above a fraction. -/
theorem nearest_le (r : Ratio) : 2 * (r.nearest * r.den) ≤ 2 * r.num + r.den := by
  have h := Nat.div_add_mod r.num r.den
  have hcomm := Nat.mul_comm r.den (r.num / r.den)
  simp only [nearest, Bool.or_eq_true, Bool.and_eq_true, decide_eq_true_eq]
  split
  · omega
  · rw [Nat.add_mul]
    omega

/-- The closest number is at most half a unit below a fraction. -/
theorem le_nearest (r : Ratio) (h : 0 < r.den) : 2 * r.num ≤ 2 * (r.nearest * r.den) + r.den := by
  have hdiv := Nat.div_add_mod r.num r.den
  have hmod := Nat.mod_lt r.num h
  have hcomm := Nat.mul_comm r.den (r.num / r.den)
  simp only [nearest, Bool.or_eq_true, Bool.and_eq_true, decide_eq_true_eq]
  split
  · omega
  · rw [Nat.add_mul]
    omega

end Ratio

namespace Decimal

/-- How many digits are enough for the exact value of any double, counted from the first one that is not
zero or from the point. What follows are zeros. -/
def exactDigits : Nat := 1100

/-- The decimal with `places` digits behind the point that is closest to a number. -/
def toPlaces (places : Nat) (b : Binary) : Decimal :=
  let value := Ratio.scaled b.mantissa b.exponent
  ⟨b.negative, (value.inUnits (-places)).nearest, -places⟩

/-- The decimal with `count` digits, at least one, that is closest to a number. If rounding makes the
number reach the next power of ten, the zero that this adds at its end is left out. Zero has its first
digit before the point. -/
def toDigits (count : Nat) (b : Binary) : Decimal :=
  let value := Ratio.scaled b.mantissa b.exponent
  let lead := if b.mantissa = 0 then 0 else value.magnitude
  let exponent := lead + 1 - count
  let digits := (value.inUnits exponent).nearest
  if digits = Nat.pow 10 count then ⟨b.negative, digits / 10, exponent + 1⟩
  else ⟨b.negative, digits, exponent⟩

end Decimal

end Npl
