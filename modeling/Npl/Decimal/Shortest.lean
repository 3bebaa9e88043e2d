/-!
# Shortest decimals

A floating-point number stands for all real numbers that round to it, and it is shown by the decimal
with the fewest digits among them. Of two decimals with equally few digits the one closer to the
number is taken, and if both are equally close, the one with the even last digit.

A positive double is `m * 2 ^ q`. The reals that round to it lie half-way to its neighbours; the ends
belong to it exactly if `m` is even. Below a power of two the lower neighbour is only half as far.

## Main definitions

* `Decimal` — a sign, digits, and an exponent of ten.
* `Binary.ofFloat` — the sign, `m` and `q` of a double.
* `Decimal.shortest` — the shortest decimal for a double.
-/

namespace Npl

/-- The number `digits * 10 ^ exponent`, or its negative. -/
structure Decimal where
  negative : Bool
  digits : Nat
  exponent : Int
deriving DecidableEq, Repr

/-- The number `mantissa * 2 ^ exponent`, or its negative. -/
structure Binary where
  negative : Bool
  mantissa : Nat
  exponent : Int
  /-- Whether the neighbour below is only half as far away as the one above. -/
  narrow : Bool
deriving DecidableEq, Repr

/-- The parts of a finite double. -/
def Binary.ofFloat (x : Float) : Binary :=
  let bits := x.toBits.toNat
  let fraction : Nat := bits % Nat.pow 2 52
  let biased : Nat := bits / Nat.pow 2 52 % Nat.pow 2 11
  let negative := Nat.pow 2 63 ≤ bits
  if biased = 0 then ⟨negative, fraction, -1074, false⟩
  else ⟨negative, Nat.pow 2 52 + fraction, (biased : Int) - 1075, fraction = 0 && 1 < biased⟩

/-- A positive fraction. -/
structure Ratio where
  num : Nat
  den : Nat
deriving DecidableEq, Repr

namespace Ratio

/-- The fraction `n * 2 ^ q`. -/
def scaled (n : Nat) (q : Int) : Ratio :=
  ⟨n * Nat.pow 2 q.toNat, Nat.pow 2 (-q).toNat⟩

/-- A fraction measured in units of `10 ^ e`. -/
def inUnits (r : Ratio) (e : Int) : Ratio :=
  ⟨r.num * Nat.pow 10 (-e).toNat, r.den * Nat.pow 10 e.toNat⟩

/-- Whether the fraction is less than `n`. -/
def isBelow (r : Ratio) (n : Nat) : Bool :=
  r.num < n * r.den

/-- Whether the fraction is greater than `n`. -/
def isAbove (r : Ratio) (n : Nat) : Bool :=
  n * r.den < r.num

/-- How often the fraction can be divided by ten without becoming less than one, at most `bound`
times. -/
def tens : Nat → Ratio → Nat
  | 0, _ => 0
  | bound + 1, r => if r.num < 10 * r.den then 0 else 1 + tens bound ⟨r.num, 10 * r.den⟩

/-- How often the fraction must be multiplied by ten until it is at least one, at most `bound`
times. -/
def tenths : Nat → Ratio → Nat
  | 0, _ => 0
  | bound + 1, r => if r.den ≤ r.num then 0 else 1 + tenths bound ⟨10 * r.num, r.den⟩

/-- The exponent of ten of the leading digit. No double needs more than 400 steps. -/
def magnitude (r : Ratio) : Int :=
  if r.den ≤ r.num then tens 400 r else -(tenths 400 r : Int)

end Ratio

namespace Decimal

/-- The better one of `n` and `n + 1` as an approximation of `value`, which lies between them, given
which of the two are admitted. -/
def nearer (value : Ratio) (n : Nat) : Bool → Bool → Option Nat
  | false, false => none
  | true, false => some n
  | false, true => some (n + 1)
  | true, true =>
    let twice := 2 * value.num
    let middle := (2 * n + 1) * value.den
    if twice < middle || twice = middle && n % 2 = 0 then some n else some (n + 1)

/-- The digits of the decimal with the given exponent that is closest to a positive double, if a
decimal with that exponent rounds to the double. The bounds are taken in quarters of `2 ^ q`. -/
def onGrid (b : Binary) (exponent : Int) : Option Nat :=
  let quarters (n : Nat) : Ratio := (Ratio.scaled n (b.exponent - 2)).inUnits exponent
  let value := quarters (4 * b.mantissa)
  let low := quarters (4 * b.mantissa - if b.narrow then 1 else 2)
  let high := quarters (4 * b.mantissa + 2)
  let admitted (n : Nat) : Bool :=
    if b.mantissa % 2 = 0 then !low.isAbove n && !high.isBelow n
    else low.isBelow n && high.isAbove n
  let n := value.num / value.den
  nearer value n (admitted n) (admitted (n + 1))

/-- The shortest decimal for a number. Seventeen digits are always enough. -/
def ofBinary (b : Binary) : Decimal :=
  if b.mantissa = 0 then ⟨b.negative, 0, 0⟩
  else
    let magnitude := (Ratio.scaled b.mantissa b.exponent).magnitude
    let found := (List.range 17).findSome? fun (k : Nat) =>
      (onGrid b (magnitude - k)).map fun digits => (digits, magnitude - k)
    match found with
    | some (digits, exponent) => ⟨b.negative, digits, exponent⟩
    | none => ⟨b.negative, 0, 0⟩

/-- The shortest decimal for a finite double. -/
def shortest (x : Float) : Decimal :=
  ofBinary (Binary.ofFloat x)

end Decimal

end Npl
