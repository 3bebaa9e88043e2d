import Npl.Syntax.Error
import Npl.Syntax.Lexeme
import Npl.Syntax.Token

/-!
# From text to tokens

The lexemes of a text are laid out from its start. Words, numbers, strings and symbols become
tokens, stray characters become errors, and blanks and comments only take up room.

## Main definitions

* `Lexeme.layOut` — every lexeme with the place where it starts.
* `TokenList.ofText` — the tokens of a text.
* `strayErrors` — one error for each character that starts no lexeme.
-/

namespace Npl

open Text (Position)

namespace Lexeme

/-- The token kind of a lexeme, and nothing for one that is no token. A word is a keyword exactly
if the language reserves it. -/
def tokenKind? (l : Lexeme) : Option TokenKind :=
  match l.kind with
  | .number => some .number
  | .word => some (if keywords.contains (String.ofList l.text) then .keyword else .identifier)
  | .quoted => some .string
  | .symbol => some .symbol
  | .blank | .comment | .stray => none

/-- The lexemes with the places where they start, the first one at `p`. -/
def layOut (p : Position) : List Lexeme → List (Position × Lexeme)
  | [] => []
  | l :: ls => (p, l) :: layOut (p.advance l.text) ls

/-- The token that a placed lexeme is, if it is one. -/
def token? (p : Position) (l : Lexeme) : Option Token :=
  l.tokenKind?.map fun kind => ⟨kind, String.ofList l.text, p⟩

/-- The error that a placed lexeme is, if it is one. -/
def error? (p : Position) (l : Lexeme) : Option SyntaxError :=
  if l.kind = .stray then some ⟨.unrecognized, some (String.ofList l.text), p⟩ else none

end Lexeme

/-- The lexemes of a text with their places. -/
def placedLexemes (text : String) : List (Position × Lexeme) :=
  Lexeme.layOut .start (Lexeme.split text.toList)

/-- The tokens of a text, and the place of its end. -/
def TokenList.ofText (text : String) : TokenList :=
  ⟨(placedLexemes text).filterMap fun (p, l) => l.token? p, Position.start.advance text.toList⟩

/-- The characters of a text that start no lexeme, each as an error. -/
def strayErrors (text : String) : List SyntaxError :=
  (placedLexemes text).filterMap fun (p, l) => l.error? p

end Npl
