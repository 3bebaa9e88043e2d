import Npl.Decimal.Rounded
import Npl.Text.Integer

/-!
# Written decimals

A decimal is written in one of two ways: positionally, with the point where it belongs, or with one
digit before the point and an exponent of ten behind the whole. The exponent has a sign and at least
two digits.

A double is usually shown by its shortest decimal. That is written positionally if its first digit
stands neither too far before the point nor too far behind it, and then with a fraction in any case.

## Main definitions

* `Written` — the parts of a written decimal.
* `Decimal.positional`, `Decimal.scientific` — the two ways to write one.
* `Decimal.usual` — how the shortest decimal of a double is written.
-/

namespace Npl

/-- The digits before the point and behind it, and the exponent of ten, if one is written. -/
structure Written where
  whole : List Char
  fraction : List Char
  exponent? : Option Int
deriving DecidableEq, Repr

namespace Written

/-- A written decimal without the zeros at the end of its fraction. -/
def withoutZeros (w : Written) : Written :=
  { w with fraction := (w.fraction.reverse.dropWhile (· = '0')).reverse }

/-- A written decimal with `n` zeros more at the end of its fraction. -/
def withZeros (n : Nat) (w : Written) : Written :=
  { w with fraction := w.fraction ++ List.replicate n '0' }

/-- An exponent of ten. -/
def exponentText (e : Int) : List Char :=
  'e' :: (if e < 0 then '-' else '+') :: Text.writeDigits 10 2 e.natAbs

/-- The text of a written decimal. Without a fraction it has a point only if that is asked for. -/
def text (keepPoint : Bool) (w : Written) : List Char :=
  let point := if w.fraction.isEmpty && !keepPoint then [] else ['.']
  w.whole ++ point ++ w.fraction ++ (w.exponent?.map exponentText).getD []

end Written

namespace Decimal

/-- A decimal without its sign, written positionally. At least one digit stands before the point. -/
def positional (d : Decimal) : Written :=
  let behind := (-d.exponent).toNat
  let ds := Text.writeDigits 10 (behind + 1) d.digits ++ List.replicate d.exponent.toNat '0'
  let before := ds.length - behind
  ⟨ds.take before, ds.drop before, none⟩

/-- The exponent of ten of the first one of `count` digits. -/
def lead (count : Nat) (d : Decimal) : Int :=
  d.exponent + count - 1

/-- A decimal without its sign, written with `count` digits and an exponent. -/
def scientific (count : Nat) (d : Decimal) : Written :=
  let ds := Text.writeDigits 10 count d.digits
  ⟨ds.take 1, ds.drop 1, some (d.lead count)⟩

/-- How the shortest decimal of a double is written, without its sign. -/
def usual (d : Decimal) : Written :=
  let count := (Text.writeDigits 10 1 d.digits).length
  if -4 ≤ d.lead count && d.lead count < 16 then
    let w := d.positional
    if w.fraction.isEmpty then { w with fraction := ['0'] } else w
  else d.scientific count

end Decimal

end Npl
