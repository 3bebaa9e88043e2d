import Npl.Text.Position

/-!
# Tokens

A token is a piece of source text that the grammar sees as one unit: a name, a keyword, a number, a
quoted string or a symbol. The end of the file is no token; it is where the list of tokens ends.

## Main definitions

* `Token` — a kind, the text exactly as it stands in the file, and its place.
* `TokenList` — the tokens of one file together with the place of its end.
-/

namespace Npl

open Text (Position)

/-- The words of the language that are no names. -/
def keywords : List String :=
  ["package", "use", "struct", "function", "returns", "return", "var", "if", "else", "true", "false"]

/-- What a token is for the grammar. -/
inductive TokenKind
  | identifier
  | keyword
  | number
  | string
  | symbol
deriving DecidableEq, Repr, Inhabited

/-- A token: its kind, its text as written, and the place where it starts. -/
structure Token where
  kind : TokenKind
  text : String
  pos : Position
deriving DecidableEq, Repr, Inhabited

namespace Token

/-- Whether the token is a name. -/
def isIdentifier (t : Token) : Bool :=
  t.kind = .identifier

/-- Whether the token is the symbol written `s`. -/
def isSymbol (t : Token) (s : String) : Bool :=
  t.kind = .symbol && t.text = s

/-- Whether the token is the keyword written `s`. -/
def isKeyword (t : Token) (s : String) : Bool :=
  t.kind = .keyword && t.text = s

/-- Whether the token is an opening parenthesis, bracket or brace. -/
def isOpener (t : Token) : Bool :=
  t.isSymbol "(" || t.isSymbol "[" || t.isSymbol "\x7b"

/-- Whether the token is a closing parenthesis, bracket or brace. -/
def isCloser (t : Token) : Bool :=
  t.isSymbol ")" || t.isSymbol "]" || t.isSymbol "\x7d"

/-- Whether the token is a keyword that opens a top-level item. -/
def opensItem (t : Token) : Bool :=
  t.isKeyword "struct" || t.isKeyword "function" || t.isKeyword "use"

/-- The offset just behind the last character of the token. -/
def stopOffset (t : Token) : Nat :=
  t.pos.offset + t.text.length

end Token

/-- The tokens of a file in order, and the place where the file ends. -/
structure TokenList where
  tokens : List Token
  stop : Position
deriving DecidableEq, Repr, Inhabited

end Npl
