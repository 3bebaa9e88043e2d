import Npl.Syntax.Token
import Npl.Total

/-!
# Syntax trees

What a file declares: its package, the names it uses, and its structures and functions. A tree
keeps the tokens it was read from, so every name has a place. Function bodies stay runs of tokens.

A file with errors has a tree too; then parts of it may be absent.

## Main definitions

* `QualifiedName`, `TypeRef`, `Binding`, `StructDecl`, `FunctionDecl`, `UseClause` — the parts.
* `Tree` — everything a file declares.
-/

namespace Npl

/-! ### Names -/

/-- A dotted name. `stop` is the last token that was read for it: its last name, or a dot that
nothing follows. -/
structure QualifiedName where
  first : Token
  more : List Token
  stop : Token
deriving DecidableEq, Repr

namespace QualifiedName

/-- The names between the dots. -/
def parts (q : QualifiedName) : List String :=
  q.first.text :: q.more.map Token.text

/-- The name as written, without the blanks around its dots. -/
def text (q : QualifiedName) : String :=
  ".".intercalate q.parts

/-- All but the last part: the package that a used name is looked up in. -/
def package (q : QualifiedName) : String :=
  ".".intercalate q.parts.dropLast

/-- The last part: the name that a use clause makes known. -/
def simpleName (q : QualifiedName) : String :=
  q.parts.getLast (by simp [parts])

end QualifiedName

/-! ### Types -/

/-- A reference to a type, with arguments if it is generic. `stop` is its last token. -/
inductive TypeRef
  | mk (token : Token) (arguments : List TypeRef) (stop : Token)
deriving Repr

namespace TypeRef

/-- The token that names the type. -/
def token : TypeRef → Token
  | mk t _ _ => t

/-- The type arguments. -/
def arguments : TypeRef → List TypeRef
  | mk _ as _ => as

/-- The last token of the reference. -/
def stop : TypeRef → Token
  | mk _ _ s => s

/-- The name of the type. -/
def name (r : TypeRef) : String :=
  r.token.text

/-- The reference in its usual spelling, such as `Map<Text, List<Number>>`. -/
def text : TypeRef → String
  | mk t as _ =>
    if as.isEmpty then t.text else t.text ++ "<" ++ ", ".intercalate (as.map text) ++ ">"

/-- The number of type names in a reference. -/
def size : TypeRef → Nat
  | mk _ as _ => 1 + total (as.map size)

theorem size_eq (r : TypeRef) : r.size = 1 + total (r.arguments.map size) := by
  cases r with | mk t as s => simp [size, arguments]

end TypeRef

/-! ### Declarations -/

/-- A field or parameter: a name, and a type if one could be read. -/
structure Binding where
  token : Token
  type? : Option TypeRef
deriving Repr

/-- The name of a field or parameter. -/
def Binding.name (b : Binding) : String :=
  b.token.text

/-- A structure with its fields. -/
structure StructDecl where
  keyword : Token
  nameToken : Token
  fields : List Binding
deriving Repr

/-- The name of a structure. -/
def StructDecl.name (d : StructDecl) : String :=
  d.nameToken.text

/-- A function. Its body leaves out the braces of a block and the semicolon behind an expression;
`stop` is the last token of the declaration. -/
structure FunctionDecl where
  keyword : Token
  nameToken : Token
  params : List Binding
  returns? : Option TypeRef
  /-- Whether the body is a block; otherwise it is an expression. -/
  block : Bool
  body : List Token
  stop : Token
deriving Repr

/-- The name of a function. -/
def FunctionDecl.name (d : FunctionDecl) : String :=
  d.nameToken.text

/-- A top-level declaration. -/
inductive Declaration
  | struct (d : StructDecl)
  | function (d : FunctionDecl)
deriving Repr

namespace Declaration

/-- The structure that a declaration is, if it is one. -/
def struct? : Declaration → Option StructDecl
  | struct d => some d
  | function _ => none

/-- The function that a declaration is, if it is one. -/
def function? : Declaration → Option FunctionDecl
  | function d => some d
  | struct _ => none

end Declaration

/-- A use clause, which makes a name of another package known. -/
structure UseClause where
  keyword : Token
  name : QualifiedName
deriving DecidableEq, Repr

/-! ### Files -/

/-- The declarations of a file in source order, its use clauses in source order, and its package. -/
structure Tree where
  package? : Option QualifiedName
  uses : List UseClause
  declarations : List Declaration
deriving Repr

namespace Tree

/-- The parts of the package's name, none for a file without a package clause. -/
def packageParts (t : Tree) : List String :=
  match t.package? with
  | some q => q.parts
  | none => []

/-- The name of the package; a file without a package clause belongs to the nameless package. -/
def packageName (t : Tree) : String :=
  ".".intercalate t.packageParts

/-- The structures of a file in source order. -/
def structs (t : Tree) : List StructDecl :=
  t.declarations.filterMap Declaration.struct?

/-- The functions of a file in source order. -/
def functions (t : Tree) : List FunctionDecl :=
  t.declarations.filterMap Declaration.function?

end Tree

end Npl
