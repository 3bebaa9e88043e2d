import Npl.Json.Basic

/-!
# Violations

Where a JSON value is not of the form that is asked for, each place that is wrong is named together
with what it should have been.

## Main definitions

* `Violation` — a place in a value and what is wrong there.
* `Json.asText`, `Json.asList` — a value of the form asked for, or the violation.
-/

namespace Npl

/-- A step from a value to one of its parts. -/
inductive PlaceStep
  | field (name : String)
  | item (index : Nat)
deriving DecidableEq, Repr

/-- What is wrong at a place. -/
inductive Fault
  | notText
  | notList
  | notObject
  | missing
  | notInteger
  | tooManyDigits
  | notChoice
deriving DecidableEq, Repr

namespace Fault

/-- The short name of a fault. -/
def name : Fault → String
  | notText => "string_type"
  | notList => "list_type"
  | notObject => "model_type"
  | missing => "missing"
  | notInteger => "int_parsing"
  | tooManyDigits => "int_parsing_size"
  | notChoice => "literal_error"

end Fault

/-- A place, as the steps that lead to it, and what is wrong there. -/
structure Violation where
  place : List PlaceStep
  fault : Fault
deriving DecidableEq, Repr

/-- A step as it is shown. -/
def PlaceStep.text : PlaceStep → String
  | field name => name
  | item index => toString index

/-- A violation on one line. -/
def Violation.line (v : Violation) : String :=
  ".".intercalate (v.place.map PlaceStep.text) ++ ": " ++ v.fault.name

namespace Json

/-- A text, or the violation at the given place. -/
def asText (place : List PlaceStep) : Json → Except (List Violation) String
  | string s => .ok s
  | _ => .error [⟨place, .notText⟩]

/-- Puts results together: all values, or all violations in order. -/
def collect {α : Type} : List (Except (List Violation) α) → Except (List Violation) (List α)
  | [] => .ok []
  | .ok a :: rs => (collect rs).map (a :: ·)
  | .error vs :: rs =>
    match collect rs with
    | .ok _ => .error vs
    | .error ws => .error (vs ++ ws)

/-- A list of which each item is read by `item`, or the violations at and below the given place. -/
def asList {α : Type} (place : List PlaceStep)
    (item : List PlaceStep → Json → Except (List Violation) α) :
    Json → Except (List Violation) (List α)
  | array items => collect (items.mapIdx fun i j => item (place ++ [PlaceStep.item i]) j)
  | _ => .error [⟨place, .notList⟩]

end Json

end Npl
