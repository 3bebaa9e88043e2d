import Npl.Program.Body
import Npl.Program.Scope

/-!
# Checks

Every unit that is to be checked is held against the scope of the whole program: names must be
declared once, used names and types must be declared, calls must have a target, blocks that owe a
value must return one, and variables should be used. Library units and units to be skipped are not
checked; what they declare counts all the same.

## Main definitions

* `SourceUnit.errors`, `SourceUnit.warnings` — the findings about one unit.
* `check` — the findings about all units, errors and warnings apart.
-/

namespace Npl

/-! ### Type references -/

/-- The number of type names in several references. -/
def TypeRef.totalSize (refs : List TypeRef) : Nat :=
  total (refs.map TypeRef.size)

theorem TypeRef.totalSize_arguments_lt (r : TypeRef) (refs : List TypeRef) :
    totalSize ((r :: refs).flatMap arguments) < totalSize (r :: refs) := by
  have step : ∀ rs : List TypeRef, totalSize (rs.flatMap arguments) + rs.length = totalSize rs := by
    intro rs
    induction rs with
    | nil => rfl
    | cons q qs ih =>
      have hq := q.size_eq
      simp only [totalSize, List.flatMap_cons, List.map_append, total_append, List.map_cons,
        total_cons, List.length_cons] at ih ⊢
      omega
  have := step (r :: refs)
  simp only [List.length_cons] at this
  omega

/-- References and all their arguments: first the references, then the arguments of all of them,
then the arguments of these, and so on. -/
def TypeRef.levels : List TypeRef → List TypeRef
  | [] => []
  | r :: refs => (r :: refs) ++ levels ((r :: refs).flatMap arguments)
termination_by refs => totalSize refs
decreasing_by exact totalSize_arguments_lt r refs

namespace SourceUnit

/-- The types of the fields, then function by function those of the parameters and the result. -/
def typeRefs (u : SourceUnit) : List TypeRef :=
  u.tree.structs.flatMap (fun d => d.fields.filterMap Binding.type?) ++
    u.tree.functions.flatMap fun d => d.params.filterMap Binding.type? ++ d.returns?.toList

/-! ### Errors and warnings of one unit -/

/-- The declarations whose name belongs to another declaration; `i` is the number of the unit. -/
def duplicateErrors (u : SourceUnit) (s : Scope) (i : Nat) : List Message :=
  let nameTokens := u.tree.structs.map StructDecl.nameToken ++
    u.tree.functions.map FunctionDecl.nameToken
  ((u.entries i).zip nameTokens).filterMap fun (e, token) =>
    if s.isDuplicate e then some (u.report (.duplicate e.name e.package) token token) else none

/-- The use clauses that refer to nothing. -/
def importErrors (u : SourceUnit) (s : Scope) : List Message :=
  (u.unresolvedUses s).map fun c => u.report (.unresolved c.name.text) c.keyword c.name.stop

/-- The type names that mean nothing. -/
def typeErrors (u : SourceUnit) (s : Scope) : List Message :=
  ((TypeRef.levels u.typeRefs).filter fun r => !u.knowsType s r.name).map fun r =>
    u.report (.unknown r.name) r.token r.stop

/-- Whether a function's body may call the name. A type is called to make a value of it. -/
def callable (u : SourceUnit) (s : Scope) (d : FunctionDecl) (name : String) : Bool :=
  (d.params.map Binding.name).contains name || (Body.declaredNames d.body).contains name ||
    u.knowsFunction s name || builtinFunctions.contains name || u.knowsType s name

/-- The calls of names that mean nothing. -/
def callErrors (u : SourceUnit) (s : Scope) (d : FunctionDecl) : List Message :=
  ((Body.freeCalls d.body).filter fun t => !u.callable s d t.text).map fun t =>
    u.report (.unknown t.text) t t

/-- A block owes a value if the function declares a result other than `Unit`. -/
def returnErrors (u : SourceUnit) (d : FunctionDecl) : List Message :=
  match d.returns? with
  | none => []
  | some type =>
    if d.block && type.name ≠ "Unit" && !Body.returns d.body then
      [u.report .missingReturn d.keyword d.stop]
    else []

/-- All errors of a unit; `i` is its number. -/
def errors (u : SourceUnit) (s : Scope) (i : Nat) : List Message :=
  u.duplicateErrors s i ++ u.importErrors s ++ u.typeErrors s ++
    u.tree.functions.flatMap fun d => u.callErrors s d ++ u.returnErrors d

/-- All warnings of a unit. -/
def warnings (u : SourceUnit) : List Message :=
  u.tree.functions.flatMap fun d => (Body.unusedVariables d.body).map fun v =>
    u.report (.unused v.name.text) v.keyword v.stop

/-- Whether a unit is checked: it is no library source and lies at none of the skipped locations. -/
def isChecked (u : SourceUnit) (skip : List Path) : Bool :=
  !u.source.library && !skip.contains u.location

end SourceUnit

/-- The errors and the warnings about all units that are checked, in the order of the units. -/
def check (units : List SourceUnit) (skip : List Path) : List Message × List Message :=
  let scope := Scope.ofUnits units
  ((units.mapIdx fun i u => if u.isChecked skip then u.errors scope i else []).flatten,
    (units.filter (·.isChecked skip)).flatMap SourceUnit.warnings)

end Npl
