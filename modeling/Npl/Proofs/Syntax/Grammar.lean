import Npl.Syntax.Parse

/-!
# The grammar of files

The grammar that files follow, with its derivations as data. A derivation is a tree that keeps every
token of the file, the punctuation included; the rules are

    file      = "package" name [";"] item*
    name      = ID ("." ID)*
    item      = "use" name [";"]
              | "struct" ID "{" [field ("," field)* [","]] "}" [";"]
              | "function" ID "(" [field ("," field)*] ")" ["returns" type] "->" body
    field     = ID ":" type
    type      = ID ["<" type ("," type)* ">"]
    body      = "{" tokens "}" [";"] | tokens ";"

The tokens of a body are no free run: brackets of all three kinds count as one kind of nesting, a
closing one at depth zero leaves it there, and the run ends at depth zero without having met there
what ends the body. An expression is not empty and does not start with an opening brace.

A derivation knows nothing of how files are read: `tokens` writes it down, and `tree` is what it
declares.

## Main definitions

* `Grammar.File` — the derivations of files, and below it one type for each rule.
* `Grammar.File.tokens`, `Grammar.File.tree` — what a derivation derives, and its syntax tree.
* `Grammar.Encloses` — the runs of tokens that a body may consist of.
-/

namespace Npl.Grammar

/-! ### Terminals -/

/-- A token with the property `p`. -/
abbrev Terminal (p : Token → Bool) : Type :=
  { t : Token // p t = true }

/-- A name that is not reserved. -/
abbrev Ident : Type :=
  Terminal Token.isIdentifier

/-- The symbol written `s`. -/
abbrev Sym (s : String) : Type :=
  Terminal (·.isSymbol s)

/-- The keyword written `s`. -/
abbrev Word (s : String) : Type :=
  Terminal (·.isKeyword s)

/-- A token that may be left out. -/
def optional {p : Token → Bool} (o : Option (Terminal p)) : List Token :=
  (o.map Subtype.val).toList

/-! ### Separated runs -/

/-- One thing, or several with the symbol `s` between them: `a (s a)*`. -/
inductive Separated (s : String) (α : Type)
  | one (a : α)
  | cons (a : α) (mark : Sym s) (others : Separated s α)

namespace Separated

variable {s : String} {α : Type}

/-- The tokens of a run, given those of its members. -/
def tokens (f : α → List Token) : Separated s α → List Token
  | one a => f a
  | cons a mark others => f a ++ mark.1 :: others.tokens f

/-- The first member. -/
def first : Separated s α → α
  | one a => a
  | cons a _ _ => a

/-- The members behind the first one. -/
def more : Separated s α → List α
  | one _ => []
  | cons _ _ others => others.first :: others.more

/-- The last member. -/
def last : Separated s α → α
  | one a => a
  | cons _ _ others => others.last

/-- All members. -/
def members (r : Separated s α) : List α :=
  r.first :: r.more

end Separated

/-! ### Names and types -/

/-- The derivations of dotted names. -/
abbrev Name : Type :=
  Separated "." Ident

namespace Name

/-- The tokens of a dotted name. -/
def tokens (n : Name) : List Token :=
  Separated.tokens (fun i : Ident => [i.1]) n

/-- The dotted name that a derivation declares. -/
def tree (n : Name) : QualifiedName :=
  ⟨n.first.1, n.more.map Subtype.val, n.last.1⟩

end Name

mutual

/-- The derivations of types: a name, and arguments in angle brackets if there are any. -/
inductive TypeUse
  | plain (name : Ident)
  | generic (name : Ident) (opening : Sym "<") (arguments : TypeUses) (closing : Sym ">")

/-- The derivations of types with commas between them. -/
inductive TypeUses
  | one (type : TypeUse)
  | cons (type : TypeUse) (comma : Sym ",") (others : TypeUses)

end

mutual

/-- The tokens of a type. -/
def TypeUse.tokens : TypeUse → List Token
  | .plain name => [name.1]
  | .generic name opening arguments closing =>
    name.1 :: opening.1 :: (arguments.tokens ++ [closing.1])

/-- The tokens of types with commas between them. -/
def TypeUses.tokens : TypeUses → List Token
  | .one type => type.tokens
  | .cons type comma others => type.tokens ++ comma.1 :: others.tokens

end

mutual

/-- The type that a derivation declares. -/
def TypeUse.tree : TypeUse → TypeRef
  | .plain name => .mk name.1 [] name.1
  | .generic name _ arguments closing => .mk name.1 arguments.trees closing.1

/-- The types that a derivation declares, in order. -/
def TypeUses.trees : TypeUses → List TypeRef
  | .one type => [type.tree]
  | .cons type _ others => type.tree :: others.trees

end

/-! ### Fields and parameters -/

/-- The derivations of fields and parameters. -/
structure Field where
  name : Ident
  colon : Sym ":"
  type : TypeUse

namespace Field

/-- The tokens of a field. -/
def tokens (f : Field) : List Token :=
  f.name.1 :: f.colon.1 :: f.type.tokens

/-- The field that a derivation declares. -/
def tree (f : Field) : Binding :=
  ⟨f.name.1, some f.type.tree⟩

end Field

/-- The derivations of the parameters of a function: nothing, or fields with commas between them. -/
abbrev Params : Type :=
  Option (Separated "," Field)

namespace Params

/-- The tokens of the parameters. -/
def tokens : Params → List Token
  | none => []
  | some fields => fields.tokens Field.tokens

/-- The parameters that a derivation declares. -/
def trees : Params → List Binding
  | none => []
  | some fields => fields.members.map Field.tree

end Params

/-- The derivations of the fields of a structure: nothing, or fields with commas between them and
perhaps one behind the last. -/
abbrev Fields : Type :=
  Option (Separated "," Field × Option (Sym ","))

namespace Fields

/-- The tokens of the fields. -/
def tokens : Fields → List Token
  | none => []
  | some (fields, trailing) => fields.tokens Field.tokens ++ optional trailing

/-- The fields that a derivation declares. -/
def trees : Fields → List Binding
  | none => []
  | some (fields, _) => fields.members.map Field.tree

end Fields

/-! ### Bodies -/

/-- The nesting depth behind a run of tokens. Every opening bracket adds one, and every closing
bracket takes one off unless the depth is zero. -/
def depth (ts : List Token) : Nat :=
  ts.foldl Reader.nest 0

/-- A run of tokens that ends at depth zero and meets nothing there that has the property `stop`. -/
structure Encloses (stop : Token → Bool) (ts : List Token) : Prop where
  balanced : depth ts = 0
  unmet : ∀ before t after, ts = before ++ t :: after → depth before = 0 → stop t = false

/-- What closes a block. -/
def endsBlock (t : Token) : Bool :=
  t.isSymbol "\x7d"

/-- What ends an expression, or cannot be part of one: a semicolon, or a keyword that opens a
top-level item. -/
def endsExpression (t : Token) : Bool :=
  t.isSymbol ";" || t.opensItem

/-- The derivations of function bodies. -/
inductive Body
  | block (opening : Sym "\x7b") (inside : List Token) (enclosed : Encloses endsBlock inside)
      (closing : Sym "\x7d") (semicolon : Option (Sym ";"))
  | expression (inside : List Token) (enclosed : Encloses endsExpression inside)
      (occupied : inside ≠ []) (unbraced : inside.head?.any (·.isSymbol "\x7b") = false)
      (semicolon : Sym ";")

namespace Body

/-- The tokens of a body. -/
def tokens : Body → List Token
  | block opening inside _ closing semicolon =>
    opening.1 :: (inside ++ closing.1 :: optional semicolon)
  | expression inside _ _ _ semicolon => inside ++ [semicolon.1]

/-- Whether the body is a block. -/
def isBlock : Body → Bool
  | block .. => true
  | expression .. => false

/-- The tokens that the function keeps as its body. -/
def kept : Body → List Token
  | block _ inside .. => inside
  | expression inside .. => inside

/-- The last token of the declaration: the brace that closes a block, or the semicolon behind an
expression. -/
def stop : Body → Token
  | block _ _ _ closing _ => closing.1
  | expression _ _ _ _ semicolon => semicolon.1

end Body

/-! ### Items -/

/-- The derivations of use clauses. -/
structure Use where
  keyword : Word "use"
  name : Name
  semicolon : Option (Sym ";")

namespace Use

/-- The tokens of a use clause. -/
def tokens (u : Use) : List Token :=
  u.keyword.1 :: (u.name.tokens ++ optional u.semicolon)

/-- The use clause that a derivation declares. -/
def tree (u : Use) : UseClause :=
  ⟨u.keyword.1, u.name.tree⟩

end Use

/-- The derivations of structures. -/
structure Struct where
  keyword : Word "struct"
  name : Ident
  opening : Sym "\x7b"
  fields : Fields
  closing : Sym "\x7d"
  semicolon : Option (Sym ";")

namespace Struct

/-- The tokens of a structure. -/
def tokens (d : Struct) : List Token :=
  d.keyword.1 :: d.name.1 :: d.opening.1 :: (d.fields.tokens ++ d.closing.1 :: optional d.semicolon)

/-- The structure that a derivation declares. -/
def tree (d : Struct) : StructDecl :=
  ⟨d.keyword.1, d.name.1, d.fields.trees⟩

end Struct

/-- The derivations of declared results: nothing, or a keyword and a type. -/
abbrev Result : Type :=
  Option (Word "returns" × TypeUse)

namespace Result

/-- The tokens of a declared result. -/
def tokens : Result → List Token
  | none => []
  | some (keyword, type) => keyword.1 :: type.tokens

/-- The result type that a derivation declares. -/
def tree? (r : Result) : Option TypeRef :=
  r.map fun (_, type) => type.tree

end Result

/-- The derivations of functions. -/
structure Function where
  keyword : Word "function"
  name : Ident
  opening : Sym "("
  params : Params
  closing : Sym ")"
  result : Result
  arrow : Sym "->"
  body : Body

namespace Function

/-- The tokens of a function. -/
def tokens (d : Function) : List Token :=
  d.keyword.1 :: d.name.1 :: d.opening.1 :: (d.params.tokens ++
    d.closing.1 :: (d.result.tokens ++ d.arrow.1 :: d.body.tokens))

/-- The function that a derivation declares. -/
def tree (d : Function) : FunctionDecl :=
  ⟨d.keyword.1, d.name.1, d.params.trees, d.result.tree?, d.body.isBlock, d.body.kept, d.body.stop⟩

end Function

/-- The derivations of top-level items. -/
inductive Item
  | use (u : Use)
  | struct (d : Struct)
  | function (d : Function)

namespace Item

/-- The tokens of an item. -/
def tokens : Item → List Token
  | use u => u.tokens
  | struct d => d.tokens
  | function d => d.tokens

/-- The use clause or declaration that a derivation declares. -/
def tree : Item → UseClause ⊕ Declaration
  | use u => .inl u.tree
  | struct d => .inr (.struct d.tree)
  | function d => .inr (.function d.tree)

end Item

/-! ### Files -/

/-- The derivations of files. -/
structure File where
  keyword : Word "package"
  name : Name
  semicolon : Option (Sym ";")
  items : List Item

namespace File

/-- The tokens of a file. -/
def tokens (f : File) : List Token :=
  f.keyword.1 :: (f.name.tokens ++ (optional f.semicolon ++ f.items.flatMap Item.tokens))

/-- The syntax tree of a file: its package, and its use clauses and declarations in order. -/
def tree (f : File) : Tree :=
  let items := f.items.map Item.tree
  ⟨some f.name.tree, items.filterMap Sum.getLeft?, items.filterMap Sum.getRight?⟩

end File

end Npl.Grammar
