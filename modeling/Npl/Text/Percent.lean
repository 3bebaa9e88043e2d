import Npl.Text.Utf8

/-!
# Percent escapes

In a URI most bytes of a path are written as a percent sign and two hexadecimal digits. Letters,
digits and the characters `_.-~/` stand for themselves. Reading accepts more than writing produces:
characters may be unescaped that writing escapes, the digits may have either case, and a percent
sign without two digits stands for itself.

## Main definitions

* `Percent.encode` — a text with its bytes escaped.
* `Percent.decode` — escapes turned back into text, with U+FFFD for bytes that are no UTF-8.
-/

namespace Npl.Text.Percent

/-! ### Writing -/

/-- Whether a byte stands for itself: an ASCII letter or digit, or one of `_.-~/`. -/
def isPlain (b : UInt8) : Bool :=
  let c := Char.ofNat b.toNat
  b < 0x80 && (c.isAlphanum || c = '_' || c = '.' || c = '-' || c = '~' || c = '/')

/-- The upper-case hexadecimal digit of a number below sixteen. -/
def hexDigit (n : Nat) : Char :=
  if n < 10 then Char.ofNat (0x30 + n) else Char.ofNat (0x41 + (n - 10))

/-- A byte as it is written in a URI. -/
def encodeByte (b : UInt8) : List Char :=
  if isPlain b then [Char.ofNat b.toNat]
  else ['%', hexDigit (b.toNat / 16), hexDigit (b.toNat % 16)]

/-- A text as it is written in a URI. -/
def encode (cs : List Char) : List Char :=
  (Utf8.encode cs).flatMap encodeByte

/-! ### Reading -/

/-- The value of a hexadecimal digit of either case. -/
def hexValue? (c : Char) : Option Nat :=
  if '0' ≤ c ∧ c ≤ '9' then some (c.toNat - 0x30)
  else if 'A' ≤ c ∧ c ≤ 'F' then some (c.toNat - 0x41 + 10)
  else if 'a' ≤ c ∧ c ≤ 'f' then some (c.toNat - 0x61 + 10)
  else none

/-- The bytes that a run of ASCII characters stands for. -/
def unescape : List Char → List UInt8
  | '%' :: a :: b :: cs =>
    match hexValue? a, hexValue? b with
    | some high, some low => .ofNat (16 * high + low) :: unescape cs
    | _, _ => .ofNat '%'.toNat :: unescape (a :: b :: cs)
  | c :: cs => .ofNat c.toNat :: unescape cs
  | [] => []

/-- Whether a character is ASCII. -/
def isAscii (c : Char) : Bool :=
  c.toNat < 0x80

/-- The text that a URI's characters stand for. Each longest run of ASCII characters is unescaped
and read as UTF-8 by itself; other characters stand for themselves. -/
def decode : List Char → List Char
  | [] => []
  | c :: cs =>
    if isAscii c then
      Utf8.decodeLossy (unescape (c :: cs.takeWhile isAscii)) ++ decode (cs.dropWhile isAscii)
    else c :: decode cs
termination_by cs => cs.length
decreasing_by
  · have := (List.dropWhile_sublist isAscii (l := cs)).length_le
    simp only [List.length_cons]
    omega
  · simp

end Npl.Text.Percent
