import Npl.Text.Blank
import Npl.Text.Digit

/-!
# Integers in text

An integer is written with decimal digits, perhaps behind a sign. A single underscore between two
digits is of no importance, and neither is white space around the whole.

## Main definitions

* `trimSpace` — a text without the white space at its ends.
* `digitsOf?` — the digits of a number without sign.
* `integerOf?` — the integer that a text stands for.
* `writeDigits` — a number in digits.
-/

namespace Npl.Text

/-- Whether a character is white space. Of the blank characters, the control characters that
separate files, groups, records and units are not. -/
def isSpace (c : Char) : Bool :=
  isBlank c && !(0x1C ≤ c.toNat && c.toNat ≤ 0x1F)

/-- A text without the white space at its ends. -/
def trimSpace (cs : List Char) : List Char :=
  ((cs.dropWhile isSpace).reverse.dropWhile isSpace).reverse

/-- A sign at the start of a text, and the rest. -/
def splitSign : List Char → Bool × List Char
  | '-' :: cs => (true, cs)
  | '+' :: cs => (false, cs)
  | cs => (false, cs)

/-- The values of digits with single underscores between them, at least one digit. -/
def digitsOf? : List Char → Option (List Nat)
  | [] => none
  | [c] => (digitValue? c).map fun d => [d]
  | c :: '_' :: cs => do return (← digitValue? c) :: (← digitsOf? cs)
  | c :: cs => do return (← digitValue? c) :: (← digitsOf? cs)

/-- The number with the given decimal digits. -/
def ofDigits (ds : List Nat) : Nat :=
  ds.foldl (fun n d => 10 * n + d) 0

/-- The integer with the given sign and absolute value. -/
def signed (negative : Bool) (n : Nat) : Int :=
  if negative then -(n : Int) else n

/-- How many digits an integer may have. -/
def digitLimit : Nat := 4300

/-- The integer that a text stands for. The digits may be those of any script. -/
def integerOf? (cs : List Char) : Option Int := do
  let (negative, cs) := splitSign (trimSpace cs)
  let ds ← digitsOf? cs
  if ds.length ≤ digitLimit then return signed negative (ofDigits ds) else none

/-- A natural number in digits, at least `count` of them. -/
def writeDigits (base count n : Nat) : List Char :=
  let ds := Nat.toDigits base n
  List.replicate (count - ds.length) '0' ++ ds

end Npl.Text
