import Npl.Decimal.Written
import Npl.Text.Integer
import Npl.Text.Quoted

/-!
# Values for templates

What is filled into a template is data of any kind. A value has a running text, in which a text stands
for itself, and a shown text, in which texts stand in quotes, also inside of lists and records.

## Main definitions

* `Template.Value` — a value.
* `Template.Value.shown`, `Template.Value.plain` — its two texts.
* `Template.Value.shownAscii` — the shown text with no characters beyond ASCII.
-/

namespace Npl.Template

/-- A value to be filled into a template. No two entries of a record have the same name. -/
inductive Value
  | absent
  | truth (b : Bool)
  | number (n : Int)
  | real (x : Float)
  | text (s : String)
  | list (items : List Value)
  | record (entries : List (String × Value))
deriving Repr, Inhabited

namespace Value

/-- The text of a double: its shortest decimal, if it is finite. -/
def realText (x : Float) : String :=
  if x.isNaN then "nan"
  else
    let d := Decimal.shortest x
    let sign := if d.negative then "-" else ""
    sign ++ if x.isInf then "inf" else String.ofList (d.usual.text false)

mutual

/-- A value as it is shown. -/
def shown : Value → String
  | absent => "None"
  | truth true => "True"
  | truth false => "False"
  | number n => toString n
  | real x => realText x
  | text s => Text.quote s
  | list items => "[" ++ ", ".intercalate (shownItems items) ++ "]"
  | record entries => "\x7b" ++ ", ".intercalate (shownEntries entries) ++ "\x7d"

/-- The items of a list as they are shown. -/
def shownItems : List Value → List String
  | [] => []
  | v :: vs => v.shown :: shownItems vs

/-- The entries of a record as they are shown. -/
def shownEntries : List (String × Value) → List String
  | [] => []
  | (name, v) :: es => (Text.quote name ++ ": " ++ v.shown) :: shownEntries es

end

/-- A value as running text. -/
def plain : Value → String
  | text s => s
  | v => v.shown

/-- A value as it is shown, with all characters beyond ASCII written as escapes. -/
def shownAscii (v : Value) : String :=
  String.ofList (v.shown.toList.flatMap fun c =>
    if c.toNat < 0x80 then [c] else Text.escapeCode c)

/-- A value as an integer, if it is one. A truth value counts as one or zero. -/
def integer? : Value → Option Int
  | number n => some n
  | truth true => some 1
  | truth false => some 0
  | _ => none

/-- A value as a double, if it is a number that is not beyond all doubles. -/
def double? : Value → Option Float
  | real x => some x
  | v => v.integer?.bind fun n =>
    let x := Float.ofScientific n.natAbs false 0
    if x.isInf then none else some (if n < 0 then -x else x)

/-- A value as an integer, where a double is cut off behind the point. -/
def whole? : Value → Option Int
  | real x =>
    if x.isNaN || x.isInf then none
    else
      let b := Binary.ofFloat x
      let value := Ratio.scaled b.mantissa b.exponent
      some (Text.signed b.negative (value.num / value.den))
  | v => v.integer?

end Value

end Npl.Template
