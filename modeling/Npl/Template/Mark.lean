import Npl.Text.Integer

/-!
# Marks

In a template a percent sign starts a mark, which tells where a value goes and how it is written. A
mark has up to six parts, of which only the last one must be there:

* the name of an entry in parentheses, which may hold balanced parentheses themselves;
* flags, any number of `-`, `+`, `#`, `0` and the space;
* a width, the least number of characters;
* a precision behind a point;
* one of the letters `h`, `l` and `L`, without a meaning;
* the form in which the value is written.

Width and precision are numbers, or an asterisk if they are themselves taken from the values. Two
percent signs are no mark but one percent sign.

## Main definitions

* `Template.Mark`, `Template.Form`, `Template.Size` — a mark and its parts.
* `Template.Piece` — a character of a template or a mark.
* `Template.piecesOf?` — the pieces of a template.
-/

namespace Npl.Template

/-- The form in which a value is written. Some forms have letters, in upper or lower case. -/
inductive Form
  /-- As running text. -/
  | plain
  /-- As it is shown. -/
  | shown
  /-- As it is shown, without characters beyond ASCII. -/
  | shownAscii
  /-- As a character, given itself or by its code point. -/
  | character
  /-- As an integer, of which a fraction is cut off. -/
  | decimal
  | octal
  | hexadecimal (upper : Bool)
  /-- With a fraction. -/
  | fixed (upper : Bool)
  /-- With an exponent. -/
  | scientific (upper : Bool)
  /-- With a fraction or with an exponent, whichever suits. -/
  | general (upper : Bool)
deriving DecidableEq, Repr

/-- The form that a letter stands for. -/
def Form.ofChar? : Char → Option Form
  | 's' => some plain
  | 'r' => some shown
  | 'a' => some shownAscii
  | 'c' => some character
  | 'd' | 'i' | 'u' => some decimal
  | 'o' => some octal
  | 'x' => some (hexadecimal false)
  | 'X' => some (hexadecimal true)
  | 'f' => some (fixed false)
  | 'F' => some (fixed true)
  | 'e' => some (scientific false)
  | 'E' => some (scientific true)
  | 'g' => some (general false)
  | 'G' => some (general true)
  | _ => none

/-- A width or precision in a mark. -/
inductive Size
  | unset
  | given (n : Nat)
  /-- The next one of the values. -/
  | asked
deriving DecidableEq, Repr

/-- A mark. -/
structure Mark where
  name? : Option String
  flags : List Char
  width : Size
  precision : Size
  form : Form
deriving DecidableEq, Repr

/-- Whether a mark has a flag. -/
def Mark.has (m : Mark) (flag : Char) : Bool :=
  m.flags.contains flag

/-- A piece of a template. -/
inductive Piece
  | char (c : Char)
  | mark (m : Mark)
deriving DecidableEq, Repr

/-! ### Reading -/

/-- The text up to the parenthesis that closes the last one of `depth + 1` open ones, and the rest. -/
def cutName : Nat → List Char → Option (List Char × List Char)
  | _, [] => none
  | 0, ')' :: cs => some ([], cs)
  | depth + 1, ')' :: cs => (cutName depth cs).map fun (name, rest) => (')' :: name, rest)
  | depth, '(' :: cs => (cutName (depth + 1) cs).map fun (name, rest) => ('(' :: name, rest)
  | depth, c :: cs => (cutName depth cs).map fun (name, rest) => (c :: name, rest)

/-- The name at the start of a mark, if there is one, and the rest. -/
def readName : List Char → Option (Option String × List Char)
  | '(' :: cs => (cutName 0 cs).map fun (name, rest) => (some (String.ofList name), rest)
  | cs => some (none, cs)

/-- Whether a character is a flag. -/
def isFlag (c : Char) : Bool :=
  c = '-' || c = '+' || c = ' ' || c = '#' || c = '0'

/-- The greatest width and precision. -/
def sizeLimit : Nat := 2147483647

/-- The width at the start of a text, if there is one that is not too great, and the rest. -/
def readWidth : List Char → Option (Size × List Char)
  | '*' :: cs => some (.asked, cs)
  | cs =>
    match (cs.takeWhile Char.isDigit).filterMap Text.digitValue? with
    | [] => some (.unset, cs)
    | ds =>
      let n := Text.ofDigits ds
      if n ≤ sizeLimit then some (.given n, cs.dropWhile Char.isDigit) else none

/-- The precision at the start of a text, if there is one that is not too great, and the rest. A point
alone means zero. -/
def readPrecision : List Char → Option (Size × List Char)
  | '.' :: cs => (readWidth cs).map fun (size, rest) =>
    (if size = .unset then .given 0 else size, rest)
  | cs => some (.unset, cs)

/-- A text without the letter at its start that has no meaning. -/
def skipLetter : List Char → List Char
  | c :: cs => if c = 'h' || c = 'l' || c = 'L' then cs else c :: cs
  | [] => []

/-- The mark at the start of a text, its percent sign left out, and the rest. -/
def readMark (cs : List Char) : Option (Mark × List Char) := do
  let (name?, cs) ← readName cs
  let flags := cs.takeWhile isFlag
  let (width, cs) ← readWidth (cs.dropWhile isFlag)
  let (precision, cs) ← readPrecision cs
  match skipLetter cs with
  | [] => none
  | c :: rest => return (⟨name?, flags, width, precision, ← Form.ofChar? c⟩, rest)

/-- The pieces of a text, which has less than `bound` characters. -/
def readPieces : Nat → List Char → Option (List Piece)
  | 0, _ => none
  | _ + 1, [] => some []
  | bound + 1, '%' :: '%' :: cs => (readPieces bound cs).map (.char '%' :: ·)
  | bound + 1, '%' :: cs => do
    let (mark, rest) ← readMark cs
    return .mark mark :: (← readPieces bound rest)
  | bound + 1, c :: cs => (readPieces bound cs).map (.char c :: ·)

/-- The pieces of a template, if all its marks can be read. -/
def piecesOf? (template : String) : Option (List Piece) :=
  readPieces (template.length + 1) template.toList

end Npl.Template
