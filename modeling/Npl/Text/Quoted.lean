import Npl.Text.Printable

/-!
# Quoted text

Where a text is shown as a value it stands in quotes: in single ones, or in double ones if it holds a
single but no double quote. Characters that do not show are written as escapes.

## Main definitions

* `quote` — a text in quotes.
* `quoteList` — a list of texts in square brackets.
-/

namespace Npl.Text

/-- The last `count` hexadecimal digits of a number, in lower case. -/
def hexDigits (count n : Nat) : List Char :=
  match count with
  | 0 => []
  | count + 1 => Nat.digitChar (n / 16 ^ count % 16) :: hexDigits count n

/-- A character written as an escape with its code point. -/
def escapeCode (c : Char) : List Char :=
  if c.toNat < 0x100 then '\\' :: 'x' :: hexDigits 2 c.toNat
  else if c.toNat < 0x10000 then '\\' :: 'u' :: hexDigits 4 c.toNat
  else '\\' :: 'U' :: hexDigits 8 c.toNat

/-- A character as it stands between quotes `q`. -/
def escape (q c : Char) : List Char :=
  if c = q || c = '\\' then ['\\', c]
  else if c = '\n' then ['\\', 'n']
  else if c = '\r' then ['\\', 'r']
  else if c = '\t' then ['\\', 't']
  else if isPrintable c then [c]
  else escapeCode c

/-- The quotes that a text stands in. -/
def quoteFor (cs : List Char) : Char :=
  if cs.contains '\'' && !cs.contains '"' then '"' else '\''

/-- A text in quotes. -/
def quote (s : String) : String :=
  let cs := s.toList
  let q := quoteFor cs
  String.ofList (q :: cs.flatMap (escape q) ++ [q])

/-- Several texts in quotes, in square brackets with commas between them. -/
def quoteList (ss : List String) : String :=
  "[" ++ ", ".intercalate (ss.map quote) ++ "]"

end Npl.Text
