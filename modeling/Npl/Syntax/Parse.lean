import Npl.Syntax.Reader
import Npl.Syntax.Tokenize
import Npl.Syntax.Tree

/-!
# Reading files

A file is a package clause followed by use clauses, structures and functions:

    file      = "package" name [";"] (use | struct | function)*
    use       = "use" name [";"]
    struct    = "struct" ID "{" [field ("," field)* [","]] "}" [";"]
    function  = "function" ID "(" [field ("," field)*] ")" ["returns" type]
                "->" ("{" tokens "}" [";"] | tokens ";")
    field     = ID ":" type
    type      = ID ["<" type ("," type)* ">"]
    name      = ID ("." ID)*

Files that do not follow it are read as well as possible. A declaration that cannot be made sense
of is given up, and reading goes on at the next keyword that opens a top-level item.

Types are nested, and so is reading them (`Reader.typeRef`). There is no bound on the depth here: that
a program may run out of its stack, and give up on a type that is nested too deeply, is left out.

## Main definitions

* `readTree` — the tree of a list of tokens, with the complaints.
* `parse` — the tree of a text, with its errors.
-/

namespace Npl

namespace Reader

/-! ### Names and types -/

/-- Takes a dot and the name behind it, and tells whether another dot may follow. A dot without a name
behind it is the last one. -/
def dotPart : Reader (Option (Token × Option Token) × Bool) := do
  match ← peek with
  | none => return (none, false)
  | some dot =>
    if dot.isSymbol "." then
      skip
      let part ← name
      return (some (dot, part), part.isSome)
    else return (none, false)

/-- Takes what follows a dotted name's first part: a dot and a name, as often as they come. The tokens
come out in pairs. -/
def dotted : Reader (List (Token × Option Token)) :=
  items dotPart

/-- Takes a dotted name. -/
def qualifiedName : Reader (Option QualifiedName) := do
  match ← name with
  | none => return none
  | some first =>
    let more ← dotted
    let stop := (more.getLast?.map fun (dot, part) => part.getD dot).getD first
    return some ⟨first, more.filterMap Prod.snd, stop⟩

mutual

/-- Takes a type, with its arguments if an opening angle bracket follows the name. A list of
arguments that is not closed ends at the last token taken. -/
def typeRef (ts : List Token) : Reading (Option TypeRef) :=
  match h : name ts with
  | ⟨none, complaints, rest⟩ => ⟨none, complaints, rest⟩
  | ⟨some token, complaints, rest⟩ =>
    match rest with
    | bracket :: inner =>
      if bracket.isSymbol "<" then
        have : inner.length < ts.length := by
          have := length_expect_lt (congrArg Reading.value h)
          simp only [show expect _ _ _ ts = name ts from rfl, h, List.length_cons] at this
          omega
        let arguments := typeArguments bracket inner
        let close := symbol ">" arguments.rest
        ⟨some (.mk token arguments.value.1 (close.value.getD arguments.value.2)),
          complaints ++ arguments.complaints ++ close.complaints, close.rest⟩
      else ⟨some (.mk token [] token), complaints, bracket :: inner⟩
    | [] => ⟨some (.mk token [] token), complaints, []⟩
termination_by (ts.length, 0)

/-- Takes types with commas between them, and answers with them the last token taken; `last` is
the token before them. -/
def typeArguments (last : Token) (ts : List Token) : Reading (List TypeRef × Token) :=
  let first := typeRef ts
  match first.rest with
  | comma :: more =>
    if comma.isSymbol "," ∧ more.length < ts.length then
      let others := typeArguments comma more
      ⟨(first.value.toList ++ others.value.1, others.value.2),
        first.complaints ++ others.complaints, others.rest⟩
    else ⟨(first.value.toList, (first.value.map TypeRef.stop).getD last), first.complaints,
      comma :: more⟩
  | [] => ⟨(first.value.toList, (first.value.map TypeRef.stop).getD last), first.complaints, []⟩
termination_by (ts.length, 1)

end

/-- Takes the colon and type behind the name of a field or parameter. -/
def annotation : Reader (Option TypeRef) := do
  match ← symbol ":" with
  | some _ => typeRef
  | none => return none

/-- Takes the name and the type of a field or parameter. -/
def binding : Reader (Option Binding) := do
  match ← name with
  | none => return none
  | some token => return some ⟨token, ← annotation⟩

/-! ### Structures -/

/-- Whether the fields of a structure end before the next token. -/
def fieldsEnd : Reader Bool :=
  fun ts => ⟨ts.head?.all fun t => t.isSymbol "\x7d" || t.opensItem, [], ts⟩

/-- Takes one field and the comma behind it, and tells whether more may follow. Tokens that fit
nowhere are skipped up to the next comma. -/
def field : Reader (Option Binding × Bool) := do
  if ← fieldsEnd then return (none, false)
  let binding? ← binding
  if ← skipIf (·.isSymbol ",") then return (binding?, true)
  if ← fieldsEnd then return (binding?, false)
  if binding?.isSome then complain (.mismatched .fieldEnd)
  skipTo fun t => t.isSymbol "," || t.isSymbol "\x7d" || t.opensItem
  let _ ← skipIf (·.isSymbol ",")
  return (binding?, true)

/-- Gives a declaration up: takes everything before the next top-level item. -/
def giveUp {α : Type} : Reader (Option α) := do
  skipTo Token.opensItem
  return none

/-- Takes a structure behind its keyword. -/
def struct (keyword : Token) : Reader (Option StructDecl) := do
  match ← name with
  | none => giveUp
  | some nameToken =>
    match ← symbol "\x7b" with
    | none => giveUp
    | some _ =>
      let fields ← items field
      let _ ← symbol "\x7d"
      let _ ← skipIf (·.isSymbol ";")
      return some ⟨keyword, nameToken, fields⟩

/-! ### Functions -/

/-- Takes one parameter and the comma behind it, and tells whether another one follows. -/
def param : Reader (Option Binding × Bool) := do
  match ← binding with
  | none => return (none, false)
  | some b => return (some b, ← skipIf (·.isSymbol ","))

/-- Takes the parameters of a function up to its closing parenthesis. -/
def params : Reader (List Binding) := do
  if ← next (·.isSymbol ")") then return []
  items param

/-- The nesting depth behind a token. A closer at depth zero leaves it there. -/
def nest (depth : Nat) (t : Token) : Nat :=
  if t.isOpener then depth + 1 else if t.isCloser then depth - 1 else depth

/-- Cuts a run of tokens before the first one with the property `p` that is not nested in brackets;
the run starts at the given depth. -/
def cut (p : Token → Bool) (depth : Nat) : List Token → List Token × List Token
  | [] => ([], [])
  | t :: ts =>
    if depth = 0 ∧ p t then ([], t :: ts)
    else
      let (run, rest) := cut p (nest depth t) ts
      (t :: run, rest)

/-- Takes the tokens before the first one with the property `p` that is not nested in brackets. -/
def run (p : Token → Bool) : Reader (List Token) := fun ts =>
  let (run, rest) := cut p 0 ts
  ⟨run, [], rest⟩

/-- Takes a block behind its opening brace: the tokens of its body and the brace that closes it. -/
def block : Reader (Option (List Token × Token)) := do
  let body ← run (·.isSymbol "\x7d")
  match ← peek with
  | some close =>
    skip
    return some (body, close)
  | none =>
    complain (.missing "\x7d")
    return none

/-- Takes an expression and the semicolon behind it. The expression ends at a semicolon or before a
top-level item; without a semicolon its last token is the last one of the declaration. -/
def expression : Reader (Option (List Token × Token)) := do
  let body ← run fun t => t.isSymbol ";" || t.opensItem
  match body.getLast? with
  | none =>
    complain (.mismatched .expression)
    let _ ← skipIf (·.isSymbol ";")
    return none
  | some last =>
    match ← peek with
    | some stop =>
      if stop.isSymbol ";" then
        skip
        return some (body, stop)
      complain (.missing ";")
      return some (body, last)
    | none =>
      complain (.missing ";")
      return some (body, last)

/-- Takes the body of a function behind its arrow: whether it is a block, its tokens, and the last
token of the function. -/
def functionBody : Reader (Bool × Option (List Token × Token)) := do
  if ← skipIf (·.isSymbol "\x7b") then
    let body ← block
    let _ ← skipIf (·.isSymbol ";")
    return (true, body)
  return (false, ← expression)

/-- Takes the type behind the keyword that announces it, if the keyword is there. -/
def returnType : Reader (Option TypeRef) := do
  if ← skipIf (·.isKeyword "returns") then typeRef else return none

/-- Takes a function behind its keyword. -/
def function (keyword : Token) : Reader (Option FunctionDecl) := do
  match ← name with
  | none => giveUp
  | some nameToken =>
    match ← symbol "(" with
    | none => giveUp
    | some _ =>
      let params ← params
      match ← symbol ")" with
      | none => giveUp
      | some _ =>
        let returns? ← returnType
        match ← symbol "->" with
        | none => giveUp
        | some _ =>
          match ← functionBody with
          | (_, none) => return none
          | (block, some (body, stop)) =>
            return some ⟨keyword, nameToken, params, returns?, block, body, stop⟩

/-! ### Files -/

/-- Takes a use clause behind its keyword. -/
def useClause (keyword : Token) : Reader (Option UseClause) := do
  match ← qualifiedName with
  | none => giveUp
  | some name =>
    let _ ← skipIf (·.isSymbol ";")
    return some ⟨keyword, name⟩

/-- Takes the package clause. -/
def packageClause : Reader (Option QualifiedName) := do
  if ← skipIf (·.isKeyword "package") then
    let name ← qualifiedName
    let _ ← skipIf (·.isSymbol ";")
    return name
  complain (.missing "package")
  return none

/-- Takes one top-level item, and tells whether the file goes on. Tokens that open no item are
skipped up to the next one that does, with one complaint for all of them. -/
def item : Reader (Option (UseClause ⊕ Declaration) × Bool) := do
  match ← peek with
  | none => return (none, false)
  | some t =>
    if t.isKeyword "use" then
      skip
      return ((← useClause t).map .inl, true)
    if t.isKeyword "struct" then
      skip
      return ((← struct t).map fun d => .inr (.struct d), true)
    if t.isKeyword "function" then
      skip
      return ((← function t).map fun d => .inr (.function d), true)
    complain (.extraneous .item)
    skip
    skipTo Token.opensItem
    return (none, true)

/-- Takes a whole file. -/
def tree : Reader Tree := do
  let package? ← packageClause
  let items ← items item
  return ⟨package?, items.filterMap Sum.getLeft?, items.filterMap Sum.getRight?⟩

end Reader

/-- The tree of a list of tokens, and the complaints about them in order. -/
def readTree (tokens : List Token) : Tree × List Complaint :=
  let reading := Reader.tree tokens
  (reading.value, reading.complaints)

/-- The tree of a text and its errors: first the characters that start no token, then what is
wrong with the tokens. -/
def parse (text : String) : Tree × List SyntaxError :=
  let file := TokenList.ofText text
  let (tree, complaints) := readTree file.tokens
  (tree, strayErrors text ++ complaints.map (Complaint.toError file.stop))

end Npl
