import Npl.Program.Unit

/-!
# Scopes

All units of one package share a scope. Structures and functions share one name space, and a name
belongs to the declaration that is merged first. Units are merged in order, and of each unit first
the structures and then the functions.

## Main definitions

* `Entry` — a declared name with the declaration it comes from.
* `Scope.ofUnits` — the entries of all units in the order of merging.
* `Scope.find?` — the entry that a name of a package belongs to.
-/

namespace Npl

/-- What a declared name is. -/
inductive EntryKind
  | struct
  | function
deriving DecidableEq, Repr

/-- A declared name: its package, what it is, and which declaration it comes from, given by the
number of the unit and the number of the declaration among those of its kind there. -/
structure Entry where
  package : String
  name : String
  kind : EntryKind
  unit : Nat
  index : Nat
deriving DecidableEq, Repr

/-- Declared names in the order of merging. -/
abbrev Scope : Type := List Entry

/-- The entries of the unit with the number `i`. -/
def SourceUnit.entries (u : SourceUnit) (i : Nat) : List Entry :=
  u.tree.structs.mapIdx (fun j d => ⟨u.package, d.name, .struct, i, j⟩) ++
    u.tree.functions.mapIdx (fun j d => ⟨u.package, d.name, .function, i, j⟩)

namespace Scope

/-- The entries of all units. -/
def ofUnits (units : List SourceUnit) : Scope :=
  (units.mapIdx fun i u => u.entries i).flatten

/-- The declaration that a name of a package belongs to. -/
def find? (s : Scope) (package name : String) : Option Entry :=
  List.find? (fun e => e.package = package && e.name = name) s

/-- What a name of a package is, if any unit declares it. -/
def kind? (s : Scope) (package name : String) : Option EntryKind :=
  (s.find? package name).map Entry.kind

/-- Whether an entry is not the one that its name belongs to. -/
def isDuplicate (s : Scope) (e : Entry) : Bool :=
  s.find? e.package e.name ≠ some e

end Scope

/-! ### What a unit can refer to -/

/-- The types that every file knows. -/
def builtinTypes : List String :=
  ["Blob", "Boolean", "DateTime", "Duration", "List", "LocalDate", "Map", "Number", "Optional",
    "Pair", "Party", "Period", "Set", "Text", "Unit"]

/-- The functions that every file knows. -/
def builtinFunctions : List String :=
  ["listOf", "setOf", "mapOf", "optionalOf", "now", "millis", "seconds", "days", "months"]

/-- What a use clause refers to, if any unit declares it. -/
def UseClause.resolve? (u : UseClause) (s : Scope) : Option EntryKind :=
  s.kind? u.name.package u.name.simpleName

namespace SourceUnit

/-- The use clauses that refer to nothing. -/
def unresolvedUses (u : SourceUnit) (s : Scope) : List UseClause :=
  u.tree.uses.filter fun c => (c.resolve? s).isNone

/-- Whether a use clause of the unit makes the name known as a declaration of the given kind. A
clause that refers to nothing makes its name known as both kinds, so that its uses are not reported
as well. -/
def imports (u : SourceUnit) (s : Scope) (kind : EntryKind) (name : String) : Bool :=
  u.tree.uses.any fun c =>
    c.name.simpleName = name && ((c.resolve? s).isNone || c.resolve? s = some kind)

/-- Whether the name is a type for the unit. -/
def knowsType (u : SourceUnit) (s : Scope) (name : String) : Bool :=
  builtinTypes.contains name || s.kind? u.package name = some .struct || u.imports s .struct name

/-- Whether the name is a declared function for the unit. -/
def knowsFunction (u : SourceUnit) (s : Scope) (name : String) : Bool :=
  s.kind? u.package name = some .function || u.imports s .function name

end SourceUnit

end Npl
