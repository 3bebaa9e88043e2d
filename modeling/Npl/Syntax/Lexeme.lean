import Npl.Text.Digit

/-!
# Lexemes

A text falls into lexemes: blanks, comments, numbers, words, quoted strings, symbols, and single
characters that start none of these. At every place the classes are tried in that order and the
first one that fits takes what it can, so cutting is deterministic and loses nothing: the lexemes
of a text, one after the other, are the text.

## Main definitions

* `Lexeme.Kind.reach` — how many characters a class takes at the start of a text, zero for none.
* `Lexeme.split` — the lexemes of a text.

## Main results

* `Lexeme.flatten_split` — the texts of the lexemes, joined, give the text back.
* `Lexeme.split_ne_nil` — no lexeme is empty.
-/

namespace Npl

/-- The classes of lexemes. -/
inductive Lexeme.Kind
  | blank
  | comment
  | number
  | word
  | quoted
  | symbol
  /-- A single character that starts no lexeme of the language. -/
  | stray
deriving DecidableEq, Repr, Inhabited

/-- A piece of text and its class. -/
structure Lexeme where
  kind : Lexeme.Kind
  text : List Char
deriving DecidableEq, Repr, Inhabited

namespace Lexeme

open Text (isDigit)

/-! ### Characters -/

/-- The four characters that separate tokens. No other space counts as one. -/
def isBlank (c : Char) : Bool :=
  c = ' ' || c = '\t' || c = '\r' || c = '\n'

/-- Whether a word may start with the character. Words are written in ASCII. -/
def startsWord (c : Char) : Bool :=
  c.isAlpha || c = '_'

/-- Whether a word may go on with the character. -/
def continuesWord (c : Char) : Bool :=
  c.isAlphanum || c = '_'

/-- The symbols of two characters. -/
def pairs : List (Char × Char) :=
  [('-', '>'), ('=', '='), ('!', '='), ('<', '='), ('>', '='), ('&', '&'), ('|', '|')]

/-- The symbols of one character. -/
def singles : List Char :=
  ['{', '}', '(', ')', '[', ']', '<', '>', ',', ';', ':', '.', '=', '+', '-', '*', '/', '!', '?',
    '%', '&', '|']

/-! ### How far each class reaches -/

/-- The length of the run of characters with the property `p` at the start of a text. -/
def runLength (p : Char → Bool) (cs : List Char) : Nat :=
  (cs.takeWhile p).length

/-- The number of characters up to and with the first `*/`. -/
def blockEnd? : List Char → Option Nat
  | '*' :: '/' :: _ => some 2
  | _ :: cs => (blockEnd? cs).map (· + 1)
  | [] => none

/-- A line comment reaches to the end of its line; a block comment to the first `*/`, and without
one it is no comment. -/
def commentReach : List Char → Nat
  | '/' :: '/' :: cs => 2 + runLength (· ≠ '\n') cs
  | '/' :: '*' :: cs =>
    match blockEnd? cs with
    | some n => 2 + n
    | none => 0
  | _ => 0

/-- A number is a run of digits, and a point with digits on both sides may stand in it once. -/
def numberReach (cs : List Char) : Nat :=
  let whole := runLength isDigit cs
  match whole, cs.drop whole with
  | 0, _ => 0
  | n + 1, '.' :: rest =>
    match runLength isDigit rest with
    | 0 => n + 1
    | m + 1 => n + 1 + 1 + (m + 1)
  | n + 1, _ => n + 1

/-- A word is a letter or underscore and the letters, digits and underscores behind it. -/
def wordReach : List Char → Nat
  | c :: cs => if startsWord c then 1 + runLength continuesWord cs else 0
  | [] => 0

/-- The number of characters up to and with the quote `q` that closes a string. A backslash takes
the next character with it, whatever it is; a bare line feed ends the attempt. -/
def quoteEnd? (q : Char) : List Char → Option Nat
  | '\\' :: _ :: cs => (quoteEnd? q cs).map (· + 2)
  | c :: cs =>
    if c = q then some 1
    else if c = '\\' || c = '\n' then none
    else (quoteEnd? q cs).map (· + 1)
  | [] => none

/-- A string stands between two double or two single quotes. -/
def quotedReach : List Char → Nat
  | c :: cs =>
    if c = '"' || c = '\'' then
      match quoteEnd? c cs with
      | some n => 1 + n
      | none => 0
    else 0
  | [] => 0

/-- A symbol takes two characters where it can. -/
def symbolReach : List Char → Nat
  | c :: d :: _ => if pairs.contains (c, d) then 2 else if singles.contains c then 1 else 0
  | [c] => if singles.contains c then 1 else 0
  | [] => 0

/-- How many characters a lexeme of the given class takes at the start of a text, and zero if no
such lexeme stands there. -/
def Kind.reach : Kind → List Char → Nat
  | .blank, cs => runLength isBlank cs
  | .comment, cs => commentReach cs
  | .number, cs => numberReach cs
  | .word, cs => wordReach cs
  | .quoted, cs => quotedReach cs
  | .symbol, cs => symbolReach cs
  | .stray, cs => min 1 cs.length

/-- The classes in the order in which they are tried. -/
def Kind.order : List Kind :=
  [.blank, .comment, .number, .word, .quoted, .symbol, .stray]

/-- The class of the lexeme at the start of a text. -/
def Kind.at (cs : List Char) : Kind :=
  (Kind.order.find? fun k => 0 < k.reach cs).getD .stray

/-! ### Cutting a text -/

/-- The class found at the start of a non-empty text takes at least one character. -/
theorem Kind.reach_at_pos {cs : List Char} (h : cs ≠ []) : 0 < (Kind.at cs).reach cs := by
  have hlen : 0 < cs.length := List.length_pos_iff.2 h
  unfold Kind.at
  cases hf : Kind.order.find? fun k => 0 < k.reach cs with
  | some k => simpa using List.find?_some hf
  | none => simp [Kind.reach]; omega

/-- The lexemes of a text. -/
def split (cs : List Char) : List Lexeme :=
  if _h : cs = [] then []
  else
    let kind := Kind.at cs
    ⟨kind, cs.take (kind.reach cs)⟩ :: split (cs.drop (kind.reach cs))
termination_by cs.length
decreasing_by
  have := Kind.reach_at_pos _h
  have := List.length_pos_iff.2 _h
  simp only [List.length_drop]
  omega

/-- Cutting loses nothing: the lexemes, joined, are the text. -/
theorem flatten_split (cs : List Char) : (split cs).flatMap Lexeme.text = cs := by
  fun_induction split cs with
  | case1 => rfl
  | case2 cs _ kind ih => simp [ih]

/-- No lexeme is empty. -/
theorem split_ne_nil (cs : List Char) : ∀ l ∈ split cs, l.text ≠ [] := by
  fun_induction split cs with
  | case1 => simp
  | case2 cs h kind ih =>
    have hpos : 0 < kind.reach cs := Kind.reach_at_pos h
    simp only [List.mem_cons, forall_eq_or_imp]
    exact ⟨by simp [h]; omega, ih⟩

end Lexeme

end Npl
