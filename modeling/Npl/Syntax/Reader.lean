import Npl.Syntax.Error
import Npl.Syntax.Token

/-!
# Readers of tokens

A reader looks at the tokens that are left, takes some of them and answers a value, the complaints
it had, and what is left now. It always answers: where the tokens do not fit, it complains and
reads on as well as it can.

Reading on follows two rules. If the wanted token comes right after one that does not fit, the
misfit is skipped as extraneous. Otherwise the wanted token counts as absent and nothing is taken.

## Main definitions

* `Reading`, `Reader` — the answer of a reader, and readers, which chain as a monad.
* `Reader.expect` — takes a token of a given sort by the two rules.
* `Reader.items` — repeats a reader as long as it asks for more and takes something.
-/

namespace Npl

/-- A fault and the token it was found at, which is absent at the end of the file. -/
structure Complaint where
  fault : SyntaxFault
  token? : Option Token
deriving DecidableEq, Repr

/-- The error that a complaint is in a file that ends at `stop`. -/
def Complaint.toError (stop : Text.Position) (c : Complaint) : SyntaxError :=
  match c.token? with
  | some t => ⟨c.fault, some t.text, t.pos⟩
  | none => ⟨c.fault, none, stop⟩

/-- What reading gives: a value, the complaints in order, and the tokens left. -/
structure Reading (α : Type) where
  value : α
  complaints : List Complaint
  rest : List Token
deriving Repr

/-- A reader of tokens. -/
def Reader (α : Type) : Type :=
  List Token → Reading α

namespace Reader

variable {α β : Type}

/-- The reader that answers `a` and takes nothing. -/
def pure (a : α) : Reader α :=
  fun ts => ⟨a, [], ts⟩

/-- One reader after the other; the second one may depend on the value of the first. -/
def bind (p : Reader α) (f : α → Reader β) : Reader β := fun ts =>
  let first := p ts
  let second := f first.value first.rest
  ⟨second.value, first.complaints ++ second.complaints, second.rest⟩

instance : Monad Reader where
  pure := pure
  bind := bind

/-! ### Single tokens -/

/-- The next token, which stays where it is. -/
def peek : Reader (Option Token) :=
  fun ts => ⟨ts.head?, [], ts⟩

/-- Whether the next token has the property `p`; at the end of the file it has none. -/
def next (p : Token → Bool) : Reader Bool :=
  fun ts => ⟨ts.head?.any p, [], ts⟩

/-- Takes the next token. -/
def skip : Reader Unit :=
  fun ts => ⟨(), [], ts.tail⟩

/-- Takes the next token if it has the property `p`, and tells whether it did. -/
def skipIf (p : Token → Bool) : Reader Bool
  | [] => ⟨false, [], []⟩
  | t :: ts => if p t then ⟨true, [], ts⟩ else ⟨false, [], t :: ts⟩

/-- Takes tokens up to the first one with the property `p`, or all. -/
def skipTo (p : Token → Bool) : Reader Unit :=
  fun ts => ⟨(), [], ts.dropWhile (!p ·)⟩

/-- Complains about the next token, which stays where it is. -/
def complain (fault : SyntaxFault) : Reader Unit :=
  fun ts => ⟨(), [⟨fault, ts.head?⟩], ts⟩

/-- Takes a token with the property `p`. If only the token behind the next one has it, the next one
is extraneous and is taken too; otherwise the fault `absent` is noted and nothing is taken. -/
def expect (p : Token → Bool) (expected : Expectation) (absent : SyntaxFault) :
    Reader (Option Token)
  | [] => ⟨none, [⟨absent, none⟩], []⟩
  | t :: ts =>
    if p t then ⟨some t, [], ts⟩
    else
      match ts with
      | [] => ⟨none, [⟨absent, some t⟩], [t]⟩
      | u :: us =>
        if p u then ⟨some u, [⟨.extraneous expected, some t⟩], us⟩
        else ⟨none, [⟨absent, some t⟩], t :: u :: us⟩

/-- Takes a name. -/
def name : Reader (Option Token) :=
  expect Token.isIdentifier .name (.mismatched .name)

/-- Takes the symbol written `s`. -/
def symbol (s : String) : Reader (Option Token) :=
  expect (·.isSymbol s) (.symbol s) (.missing s)

/-- A taken token leaves fewer tokens than there were. -/
theorem length_expect_lt {p : Token → Bool} {e : Expectation} {f : SyntaxFault} {ts : List Token}
    {t : Token} (h : (expect p e f ts).value = some t) :
    (expect p e f ts).rest.length < ts.length := by
  fun_cases expect p e f ts <;> grind [expect]

/-! ### Repetition -/

/-- Repeats `turn`, which answers an item, if there is one, and whether to go on. Going on takes
something off the tokens; a turn that asks for more without taking anything is the last. -/
def items (turn : Reader (Option α × Bool)) : Reader (List α) := fun ts =>
  let first := turn ts
  if _h : first.value.2 ∧ first.rest.length < ts.length then
    let others := items turn first.rest
    ⟨first.value.1.toList ++ others.value, first.complaints ++ others.complaints, others.rest⟩
  else ⟨first.value.1.toList, first.complaints, first.rest⟩
termination_by ts => ts.length
decreasing_by exact _h.2

end Reader

end Npl
