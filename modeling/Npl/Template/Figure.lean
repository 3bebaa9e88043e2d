import Npl.Template.Mark
import Npl.Template.Value

/-!
# Figures

A number in the form of a mark is a figure: a sign, the sign of its base, and digits. A figure and a
text are both brought to a width, by blanks at the one or the other end; a figure also by zeros behind
its signs.

## Main definitions

* `Template.Figure` — a number in some form.
* `Template.Figure.ofInteger`, `Template.Figure.ofDouble` — the figure for a number.
* `Template.Mark.write` — a value as a mark asks for it.
-/

namespace Npl.Template

/-- The greatest length that a mark can ask for. -/
def lengthLimit : Nat := 10000000

/-- A number in some form. The digits may be the name of something that has none. -/
structure Figure where
  negative : Bool
  /-- The sign of the base, which is only written if asked for. -/
  base : List Char
  digits : List Char
deriving DecidableEq, Repr

namespace Figure

/-- A figure with its letters in upper case. -/
def toUpper (f : Figure) : Figure :=
  { f with base := f.base.map Char.toUpper, digits := f.digits.map Char.toUpper }

/-- A figure with letters in the given case. -/
def inCase (upper : Bool) (f : Figure) : Figure :=
  if upper then f.toUpper else f

/-- The figure for an integer in digits of the given base, at least `count` of them. -/
def ofInteger (base : Nat) (sign : List Char) (count : Nat) (n : Int) : Figure :=
  ⟨n < 0, sign, Text.writeDigits base count n.natAbs⟩

/-- The figure for a double. A finite one is written by `write`, which gives its decimal without the
sign. -/
def ofDouble (write : Binary → List Char) (x : Float) : Figure :=
  let b := Binary.ofFloat x
  if x.isNaN then ⟨false, [], "nan".toList⟩
  else ⟨b.negative, [], if x.isInf then "inf".toList else write b⟩

/-- A double with a number of digits behind the point. -/
def fixed (keepPoint : Bool) (places : Nat) (b : Binary) : List Char :=
  let exact := min places Decimal.exactDigits
  ((Decimal.toPlaces exact b).positional.withZeros (places - exact)).text keepPoint

/-- A double with an exponent and a number of digits behind the point. -/
def scientific (keepPoint : Bool) (places : Nat) (b : Binary) : List Char :=
  let exact := min (places + 1) Decimal.exactDigits
  (((Decimal.toDigits exact b).scientific exact).withZeros (places + 1 - exact)).text keepPoint

/-- A double with a number of digits, at least one. It is written positionally if its first digit
stands at most four places behind the point and the digits reach up to the point. Only if the point is
asked for do zeros stay at the end of a fraction. -/
def general (keepPoint : Bool) (precision : Nat) (b : Binary) : List Char :=
  let count := max precision 1
  let exact := min count Decimal.exactDigits
  let d := Decimal.toDigits exact b
  let lead := d.lead exact
  let w := if -4 ≤ lead && lead < count then d.positional else d.scientific exact
  if keepPoint then (w.withZeros (count - exact)).text true else w.withoutZeros.text false

/-- Whether a figure gets longer with its precision, however great that is. -/
def growsWith (form : Form) (keepPoint : Bool) : Bool :=
  match form with
  | .general _ => keepPoint
  | _ => true

/-- The figure for a value, if a number is asked for. Without a precision a double has six digits. -/
def ofValue? (form : Form) (keepPoint : Bool) (precision? : Option Nat) (v : Value) : Option Figure :=
  let count := precision?.getD 0
  let places := precision?.getD 6
  if growsWith form keepPoint && lengthLimit < count then none
  else
    match form with
    | .decimal => v.whole?.map (ofInteger 10 [] count)
    | .octal => v.integer?.map (ofInteger 8 ['0', 'o'] count)
    | .hexadecimal upper => v.integer?.map fun n => (ofInteger 16 ['0', 'x'] count n).inCase upper
    | .fixed upper => v.double?.map fun x => (ofDouble (fixed keepPoint places) x).inCase upper
    | .scientific upper =>
      v.double?.map fun x => (ofDouble (scientific keepPoint places) x).inCase upper
    | .general upper => v.double?.map fun x => (ofDouble (general keepPoint places) x).inCase upper
    | .plain | .shown | .shownAscii | .character => none

end Figure

/-- The character with a code point, if there is one. -/
def characterOf? (n : Int) : Option Char :=
  if 0 ≤ n && n.toNat.isValidChar then some (.ofNat n.toNat) else none

/-- The text for a value, if a text is asked for. -/
def textOf? (form : Form) (precision? : Option Nat) (v : Value) : Option (List Char) :=
  let cut (s : String) : List Char :=
    match precision? with
    | some n => s.toList.take n
    | none => s.toList
  match form with
  | .plain => some (cut v.plain)
  | .shown => some (cut v.shown)
  | .shownAscii => some (cut v.shownAscii)
  | .character =>
    match v with
    | .text s => if s.length = 1 then some s.toList else none
    | v => (v.integer?.bind characterOf?).map fun c => [c]
  | _ => none

/-- What brings `count` characters to a width. -/
def padding (fill : Char) (width count : Nat) : List Char :=
  List.replicate (width - count) fill

/-- A text brought to a width. -/
def writeText (left : Bool) (width : Nat) (cs : List Char) : List Char :=
  if left then cs ++ padding ' ' width cs.length else padding ' ' width cs.length ++ cs

namespace Mark

/-- The signs in front of a figure. A figure that is not negative has a plus sign or a blank if there
is a flag for it. -/
def signs (m : Mark) (f : Figure) : List Char :=
  let sign :=
    if f.negative then ['-'] else if m.has '+' then ['+'] else if m.has ' ' then [' '] else []
  sign ++ if m.has '#' then f.base else []

/-- A figure brought to a width. -/
def writeFigure (m : Mark) (left : Bool) (width : Nat) (f : Figure) : List Char :=
  let signs := m.signs f
  let count := signs.length + f.digits.length
  if left then signs ++ f.digits ++ padding ' ' width count
  else if m.has '0' then signs ++ padding '0' width count ++ f.digits
  else padding ' ' width count ++ signs ++ f.digits

/-- A value as a mark asks for it, if it can be written that way. A negative width stands for the flag
that puts the blanks at the end, and a negative precision for zero. -/
def write (m : Mark) (width? precision? : Option Int) (v : Value) : Option (List Char) :=
  let width := (width?.getD 0).natAbs
  let left := m.has '-' || width?.any (· < 0)
  let precision? := precision?.map Int.toNat
  if lengthLimit < width then none
  else
    match textOf? m.form precision? v with
    | some cs => some (writeText left width cs)
    | none => (Figure.ofValue? m.form (m.has '#') precision? v).map (m.writeFigure left width)

end Mark

end Npl.Template
