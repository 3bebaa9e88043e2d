import Npl.Program.Body
import Npl.Program.Graph
import Npl.Program.Unit

/-!
# Inferred return types

A function with an expression body and no declared result takes its return type from the
expression. If that is nothing but a call of another such function of the package, the type is
taken from there, and so on. A chain of such calls that never ends leaves the types undetermined.
The compiler has a graph library look for one.

## Main definitions

* `Untyped.ofUnits` — the functions without a type of their own, one for each package and name.
* `Untyped.graph` — which of them take their types from which.
* `findCircular` — the message about the chain that is found never to end.
-/

namespace Npl

/-- Whether the return type of a function is taken from its expression: it has an expression body and
no declared result. -/
def FunctionDecl.isUntyped (d : FunctionDecl) : Bool :=
  d.returns?.isNone && !d.block

/-- A function whose return type is taken from its expression, and the unit it lies in. -/
structure Untyped where
  unit : SourceUnit
  decl : FunctionDecl
deriving Repr

namespace Untyped

/-- The package of the function. -/
def package (f : Untyped) : String :=
  f.unit.package

/-- The name of the function. -/
def name (f : Untyped) : String :=
  f.decl.name

/-- The package and the name of the function. -/
def key (f : Untyped) : String × String :=
  (f.package, f.name)

/-- Whether two functions have the same package and name. -/
def same (f g : Untyped) : Bool :=
  f.package = g.package && f.name = g.name

/-- The functions of all units whose return types are taken from their expressions. -/
def all (units : List SourceUnit) : List Untyped :=
  units.flatMap fun u => (u.tree.functions.filter FunctionDecl.isUntyped).map (⟨u, ·⟩)

/-- The functions of all units whose type is to be found, of each package and name the first. -/
def ofUnits (units : List SourceUnit) : List Untyped :=
  (all units).foldl (fun kept f => if kept.any f.same then kept else kept ++ [f]) []

/-- The edge from a function to the one that its type is taken from. -/
def edge? (fs : List Untyped) (f : Untyped) : Option ((String × String) × (String × String)) := do
  let callee ← Body.callee? f.decl.body
  if (f.package, callee) ∈ fs.map key then some (f.key, (f.package, callee)) else none

/-- The functions, with an edge from each one to the one that its type is taken from. -/
def graph (fs : List Untyped) : Graph (String × String) where
  nodes := fs.map key
  edges := fs.filterMap (edge? fs)
  ends := by
    intro e he
    obtain ⟨f, hf, hedge⟩ := List.mem_filterMap.1 he
    obtain ⟨callee, -, hcallee⟩ := Option.bind_eq_some_iff.1 hedge
    obtain ⟨hmem, hsame⟩ := Option.ite_none_right_eq_some.1 hcallee
    obtain rfl := Option.some.inj hsame
    exact ⟨List.mem_map_of_mem hf, hmem⟩

/-- The functions that the edges of a cycle start from. -/
def members (fs : List Untyped) (cycle : List ((String × String) × (String × String))) :
    List Untyped :=
  cycle.filterMap fun e => fs.find? (·.key = e.1)

/-- Whether a function comes before another one: by the text of its location, then by line and
column of its keyword. -/
def before (f g : Untyped) : Bool :=
  let key (h : Untyped) := (h.unit.location.text, h.decl.keyword.pos.line,
    h.decl.keyword.pos.column)
  let (fText, fLine, fColumn) := key f
  let (gText, gLine, gColumn) := key g
  fText < gText || fText = gText && (fLine < gLine || fLine = gLine && fColumn < gColumn)

/-- The first of several functions. -/
def first? : List Untyped → Option Untyped
  | [] => none
  | f :: fs => some (fs.foldl (fun least g => if g.before least then g else least) f)

/-- The path of a function within the program: its package and its name, each part behind a slash. -/
def path (f : Untyped) : String :=
  "/" ++ "/".intercalate (f.unit.tree.packageParts ++ [f.name])

/-- The message about a function whose return type depends on itself. -/
def report (f : Untyped) : Message :=
  f.unit.report (.circular f.path) f.decl.keyword f.decl.stop

end Untyped

/-- The message about a chain of calls that never ends, if the search finds one. Of the functions on
the cycle that it finds the first one is named. -/
def findCircular (search : Graph.Search (String × String)) (units : List SourceUnit) :
    Option Message :=
  let fs := Untyped.ofUnits units
  (search (Untyped.graph fs)).bind fun cycle =>
    (Untyped.first? (Untyped.members fs cycle)).map Untyped.report

end Npl
