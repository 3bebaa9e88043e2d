import Npl.Syntax.Tree

/-!
# Function bodies

The body of a function is a run of tokens, and what it does is read off neighbouring tokens. A name
before an opening parenthesis is called, unless a dot stands before it. A name behind `var` is
declared. A name behind a dot is a member of something and no mention of a variable.

## Main definitions

* `Body.freeCalls` — the names that are called and are no members.
* `Body.declaredNames` — the variables and the parameters of inner functions.
* `Body.unusedVariables` — the variables that are mentioned nowhere but in their declaration.
* `Body.callee?` — the function that the body is nothing but a call of.
-/

namespace Npl.Body

/-! ### Calls and declarations -/

/-- The tokens that call a function by a name that is no member. `member` tells whether a dot stands
before the first token. -/
def freeCallsFrom (member : Bool) : List Token → List Token
  | t :: u :: ts =>
    let others := freeCallsFrom (t.isSymbol ".") (u :: ts)
    if t.isIdentifier && u.isSymbol "(" && !member then t :: others else others
  | _ => []

/-- The tokens of a body that call a function by a name that is no member. -/
def freeCalls (body : List Token) : List Token :=
  freeCallsFrom false body

/-- The names before a colon in the tokens up to the first closing parenthesis. -/
def lambdaParams : List Token → List String
  | t :: u :: ts =>
    if t.isSymbol ")" then []
    else if t.isIdentifier && u.isSymbol ":" then t.text :: lambdaParams (u :: ts)
    else lambdaParams (u :: ts)
  | _ => []

/-- The names of the variables and of the parameters of inner functions. -/
def declaredNames : List Token → List String
  | t :: u :: ts =>
    let others := declaredNames (u :: ts)
    if t.isKeyword "var" && u.isIdentifier then u.text :: others
    else if t.isKeyword "function" && u.isSymbol "(" then lambdaParams ts ++ others
    else others
  | _ => []

/-- Whether a body has a return statement. -/
def returns (body : List Token) : Bool :=
  body.any (·.isKeyword "return")

/-! ### Variables -/

/-- How often a name is mentioned other than as a member. `member` tells whether a dot stands before
the first token. -/
def mentionsFrom (member : Bool) (name : String) : List Token → Nat
  | [] => 0
  | t :: ts =>
    let others := mentionsFrom (t.isSymbol ".") name ts
    if t.isIdentifier && t.text = name && !member then others + 1 else others

/-- How often a name is mentioned in a body other than as a member. -/
def mentions (name : String) (body : List Token) : Nat :=
  mentionsFrom false name body

/-- The semicolon that ends the statement at the start of a run of tokens: the first one that is not
nested in brackets opened since. -/
def semicolon? (depth : Int) : List Token → Option Token
  | [] => none
  | t :: ts =>
    if t.isOpener then semicolon? (depth + 1) ts
    else if t.isCloser then semicolon? (depth - 1) ts
    else if t.isSymbol ";" && depth ≤ 0 then some t
    else semicolon? depth ts

/-- A declared variable: the keyword, the name, and the last token of the statement. -/
structure Variable where
  keyword : Token
  name : Token
  stop : Token
deriving DecidableEq, Repr

/-- The variables that a body declares. A statement without a semicolon ends with the body. -/
def declared : List Token → List Variable
  | t :: u :: ts =>
    let others := declared (u :: ts)
    if t.isKeyword "var" && u.isIdentifier then
      ⟨t, u, (semicolon? 0 (t :: u :: ts)).getD ((u :: ts).getLast (by simp))⟩ :: others
    else others
  | _ => []

/-- The variables that are mentioned nowhere but in their own declaration. -/
def unusedVariables (body : List Token) : List Variable :=
  (declared body).filter fun v => mentions v.name.text body = 1

/-! ### Bodies that are a single call -/

/-- What follows the parenthesis that closes the given number of open ones. -/
def afterClosing? (opened : Nat) : List Token → Option (List Token)
  | [] => none
  | t :: ts =>
    if t.isSymbol "(" then afterClosing? (opened + 1) ts
    else if t.isSymbol ")" then
      if opened ≤ 1 then some ts else afterClosing? (opened - 1) ts
    else afterClosing? opened ts

/-- The name of the function that a body is a single call of: a name, and an opening parenthesis
that the last token of the body closes. -/
def callee? : List Token → Option String
  | f :: bracket :: ts =>
    if f.isIdentifier && bracket.isSymbol "(" && afterClosing? 1 ts = some [] then some f.text
    else none
  | _ => none

end Npl.Body
