/-!
# UTF-8

Text is written as bytes in UTF-8. Reading bytes back can fail: a sequence may start with a byte
that starts none, break off where a continuation byte is due, or run into the end of the data. The
bytes of a failed attempt, up to but without the first one that does not fit, form one ill-formed
piece, and reading goes on behind it.

## Main definitions

* `Utf8.encode` — the bytes of a text.
* `Utf8.split` — bytes cut into well-formed characters and ill-formed pieces.
* `Utf8.decode` — the text, or the first ill-formed piece.
* `Utf8.decodeLossy` — the text with a replacement character for each ill-formed piece.
-/

namespace Npl.Text.Utf8

/-! ### Writing -/

/-- The bytes of one character. -/
def encodeChar (c : Char) : List UInt8 :=
  let n := c.toNat
  if n < 0x80 then [.ofNat n]
  else if n < 0x800 then [.ofNat (0xC0 + n / 0x40), .ofNat (0x80 + n % 0x40)]
  else if n < 0x10000 then
    [.ofNat (0xE0 + n / 0x1000), .ofNat (0x80 + n / 0x40 % 0x40), .ofNat (0x80 + n % 0x40)]
  else
    [.ofNat (0xF0 + n / 0x40000), .ofNat (0x80 + n / 0x1000 % 0x40),
      .ofNat (0x80 + n / 0x40 % 0x40), .ofNat (0x80 + n % 0x40)]

/-- The bytes of a run of characters. -/
def encode (cs : List Char) : List UInt8 :=
  cs.flatMap encodeChar

/-! ### Reading one character -/

/-- Why a piece is ill-formed. -/
inductive Flaw
  | invalidStart
  | invalidContinuation
  | unexpectedEnd
deriving DecidableEq, Repr

/-- The wording of a flaw. -/
def Flaw.text : Flaw → String
  | invalidStart => "invalid start byte"
  | invalidContinuation => "invalid continuation byte"
  | unexpectedEnd => "unexpected end of data"

/-- What a first byte announces: how many bytes follow, between which bounds the first of them
lies, and the bits that the first byte contributes. All later bytes lie between `0x80` and `0xBF`;
the narrower bounds exclude surrogates, overlong forms and numbers beyond the last character. -/
structure Announced where
  count : Nat
  low : Nat
  high : Nat
  bits : Nat
deriving DecidableEq, Repr

/-- What a byte announces as the first one of a character, and nothing if it cannot be first. -/
def announced? (b : Nat) : Option Announced :=
  if b < 0x80 then some ⟨0, 0, 0, b⟩
  else if b < 0xC2 then none
  else if b < 0xE0 then some ⟨1, 0x80, 0xBF, b - 0xC0⟩
  else if b = 0xE0 then some ⟨2, 0xA0, 0xBF, 0⟩
  else if b = 0xED then some ⟨2, 0x80, 0x9F, 0xD⟩
  else if b < 0xF0 then some ⟨2, 0x80, 0xBF, b - 0xE0⟩
  else if b = 0xF0 then some ⟨3, 0x90, 0xBF, 0⟩
  else if b < 0xF4 then some ⟨3, 0x80, 0xBF, b - 0xF0⟩
  else if b = 0xF4 then some ⟨3, 0x80, 0x8F, 4⟩
  else none

/-- Reads the announced continuation bytes, the first of them between the given bounds. Answers how
many bytes were taken, and the number they complete or what is wrong. -/
def continuation : Nat → Nat → Nat → Nat → List UInt8 → Nat × Except Flaw Nat
  | 0, _, _, bits, _ => (0, .ok bits)
  | _ + 1, _, _, _, [] => (0, .error .unexpectedEnd)
  | count + 1, low, high, bits, b :: bs =>
    if low ≤ b.toNat ∧ b.toNat ≤ high then
      let (taken, result) := continuation count 0x80 0xBF (bits * 0x40 + b.toNat % 0x40) bs
      (taken + 1, result)
    else (0, .error .invalidContinuation)

/-- Reads the character or ill-formed piece that starts with `b`: how many of the bytes behind `b`
belong to it, and what it is. -/
def readChar (b : UInt8) (bs : List UInt8) : Nat × Except Flaw Char :=
  match announced? b.toNat with
  | none => (0, .error .invalidStart)
  | some a =>
    let (taken, result) := continuation a.count a.low a.high a.bits bs
    (taken, result.map Char.ofNat)

/-! ### Reading -/

/-- A piece of the input: its bytes, and the character they stand for or what is wrong. -/
structure Piece where
  bytes : List UInt8
  value : Except Flaw Char

/-- The pieces of a run of bytes. -/
def split : List UInt8 → List Piece
  | [] => []
  | b :: bs =>
    let (taken, value) := readChar b bs
    ⟨b :: bs.take taken, value⟩ :: split (bs.drop taken)
termination_by bs => bs.length
decreasing_by simp only [List.length_drop, List.length_cons]; omega

/-- Cutting into pieces loses nothing. -/
theorem flatMap_bytes_split (bs : List UInt8) : (split bs).flatMap Piece.bytes = bs := by
  fun_induction split bs with
  | case1 => rfl
  | case2 b bs taken value _ ih => simp [ih]

/-- Where and why reading failed: the offset of the first ill-formed piece, its bytes, its flaw. -/
structure Error where
  offset : Nat
  bytes : List UInt8
  flaw : Flaw
deriving DecidableEq, Repr

/-- A byte in two lower-case hexadecimal digits. -/
def hexByte (b : UInt8) : String :=
  String.ofList [Nat.digitChar (b.toNat / 16), Nat.digitChar (b.toNat % 16)]

/-- The wording of an error. A single byte is shown, several are only located. -/
def Error.message (e : Error) : String :=
  let place :=
    match e.bytes with
    | [b] => "byte 0x" ++ hexByte b ++ " in position " ++ toString e.offset
    | bs => "bytes in position " ++ toString e.offset ++ "-" ++ toString (e.offset + bs.length - 1)
  "'utf-8' codec can't decode " ++ place ++ ": " ++ e.flaw.text

/-- The characters of pieces without a flaw, or the first flawed one; the first piece is at the
given offset. -/
def join (offset : Nat) : List Piece → Except Error (List Char)
  | [] => .ok []
  | p :: ps =>
    match p.value with
    | .error flaw => .error ⟨offset, p.bytes, flaw⟩
    | .ok c => (join (offset + p.bytes.length) ps).map (c :: ·)

/-- Reads bytes as text, or finds the first ill-formed piece. -/
def decode (bs : List UInt8) : Except Error (List Char) :=
  join 0 (split bs)

/-- Reads bytes as text, with U+FFFD for each ill-formed piece. -/
def decodeLossy (bs : List UInt8) : List Char :=
  (split bs).map fun p =>
    match p.value with
    | .ok c => c
    | .error _ => '\uFFFD'

end Npl.Text.Utf8
