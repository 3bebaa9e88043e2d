import Npl.Template.Figure

/-!
# Filling templates

The text of a record can be a template. Its marks take the values in order, and there must be a value
for every mark and a mark for every value.

A single record that is not empty is not taken as one of the values: marks name its entries instead. The
entry named last is then the only value there is, and before any is named it is the record itself. Not
every entry must be asked for.

## Main definitions

* `Template.Supply` — the values that are left.
* `Template.fill` — a template with its values filled in, if they fit.
-/

namespace Npl.Template

/-- The values that are left for the marks that follow. -/
structure Supply where
  values : List Value
  /-- The record whose entries can be named, if there is one. -/
  entries? : Option (List (String × Value))

namespace Supply

/-- All values. -/
def ofValues (values : List Value) : Supply :=
  match values with
  | [.record (e :: es)] => ⟨values, some (e :: es)⟩
  | _ => ⟨values, none⟩

/-- The next value. -/
def next? (s : Supply) : Option (Value × Supply) :=
  match s.values with
  | [] => none
  | v :: vs => some (v, { s with values := vs })

/-- The values after an entry is named. -/
def select? (s : Supply) : Option String → Option Supply
  | none => some s
  | some name => do
    let entries ← s.entries?
    return { s with values := [← entries.lookup name] }

/-- The number for a size, if there is one. One that is asked for must be an integer that is not too
great. -/
def size? (s : Supply) : Size → Option (Option Int × Supply)
  | .unset => some (none, s)
  | .given n => some (some n, s)
  | .asked => do
    let (v, s) ← s.next?
    let n ← v.integer?
    if n.natAbs ≤ sizeLimit then return (some n, s) else none

/-- Whether nothing is missing if no mark follows. -/
def isDone (s : Supply) : Bool :=
  s.entries?.isSome || s.values.isEmpty

end Supply

/-- Fills values into pieces. -/
def fillPieces : List Piece → Supply → Option (List Char)
  | [], s => if s.isDone then some [] else none
  | .char c :: ps, s => (fillPieces ps s).map (c :: ·)
  | .mark m :: ps, s => do
    let s ← s.select? m.name?
    let (width?, s) ← s.size? m.width
    let (precision?, s) ← s.size? m.precision
    let (v, s) ← s.next?
    let written ← m.write width? precision? v
    return written ++ (← fillPieces ps s)

/-- A template with its values filled in. Without values it is no template and stays as it is. -/
def fill (template : String) (values : List Value) : Option String :=
  if values.isEmpty then some template
  else do
    let pieces ← piecesOf? template
    return String.ofList (← fillPieces pieces (.ofValues values))

end Npl.Template
