import Npl.Text.Position

/-!
# Syntax errors

Reading a file never stops at an error: each one is noted with what was found, where it was found
and what would have fitted, and reading goes on.

## Main definitions

* `SyntaxFault` — what is wrong at a place.
* `SyntaxError` — a fault with the piece of text it was found at.
* `SyntaxError.message` — the wording shown to the user.
-/

namespace Npl

open Text (Position)

/-- What the grammar would have accepted at a place. -/
inductive Expectation
  /-- A name. -/
  | name
  /-- One given symbol. -/
  | symbol (text : String)
  /-- A top-level item or the end of the file. -/
  | item
  /-- Another field or the end of the structure. -/
  | fieldEnd
  /-- The body of a function. -/
  | expression
deriving DecidableEq, Repr

namespace Expectation

/-- How an expectation is worded. -/
def describe : Expectation → String
  | name => "IDENTIFIER"
  | symbol text => "'" ++ text ++ "'"
  | item => "\x7b'function', 'struct', 'use', <EOF>\x7d"
  | fieldEnd => "\x7b',', '\x7d'\x7d"
  | expression => "an expression"

end Expectation

/-- What is wrong at a place of a file. -/
inductive SyntaxFault
  /-- The character starts no token. -/
  | unrecognized
  /-- The token is one too many; without it the text would go on as expected. -/
  | extraneous (expected : Expectation)
  /-- The token does not fit. -/
  | mismatched (expected : Expectation)
  /-- The given keyword or symbol is not there. -/
  | missing (text : String)
deriving DecidableEq, Repr

/-- A fault, the text it was found at (nothing at the end of the file) and the place. -/
structure SyntaxError where
  fault : SyntaxFault
  found : Option String
  pos : Position
deriving DecidableEq, Repr

namespace SyntaxError

/-- The text the error covers; at the end of the file it covers nothing. -/
def snippet (e : SyntaxError) : String :=
  e.found.getD ""

/-- The wording of an error. -/
def message (e : SyntaxError) : String :=
  let found := "'" ++ e.found.getD "<EOF>" ++ "'"
  "Syntax error: " ++
    match e.fault with
    | .unrecognized => "token recognition error at: " ++ found
    | .extraneous expected => "extraneous input " ++ found ++ " expecting " ++ expected.describe
    | .mismatched expected => "mismatched input " ++ found ++ " expecting " ++ expected.describe
    | .missing text => "missing '" ++ text ++ "' at " ++ found

end SyntaxError

end Npl
