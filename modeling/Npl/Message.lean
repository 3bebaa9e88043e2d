import Npl.Path.Basic

/-!
# Compiler messages

A message tells what the compiler found, how severe it is, and which text of which file it is about.

## Main definitions

* `Code`, `Severity` — the closed sets of codes and severities.
* `Message` — one finding of the compiler.
-/

namespace Npl

/-- The kinds of findings. -/
inductive Code
  | syntaxError
  | unknownName
  | duplicateDeclaration
  | missingReturn
  | unusedVariable
  | unresolvedImport
  | cannotInferType
deriving DecidableEq, Repr, Inhabited

namespace Code

/-- The number shown for a code. It never changes, so that users can refer to it. -/
def number : Code → Nat
  | syntaxError => 1
  | unknownName => 2
  | duplicateDeclaration => 4
  | missingReturn => 15
  | unusedVariable => 16
  | unresolvedImport => 62
  | cannotInferType => 89

/-- All codes. -/
def all : List Code :=
  [syntaxError, unknownName, duplicateDeclaration, missingReturn, unusedVariable,
    unresolvedImport, cannotInferType]

/-- The code with a given number. -/
def ofNumber? (n : Nat) : Option Code :=
  all.find? (·.number = n)

/-- A code is found by its number. -/
theorem ofNumber?_number (c : Code) : ofNumber? c.number = some c := by
  cases c <;> rfl

end Code

/-- How severe a finding is. -/
inductive Severity
  | error
  | warning
deriving DecidableEq, Repr, Inhabited

/-- A finding of the compiler. `line` and `column` count from one, and `snippet` is the text that the
finding is about, which may run over several lines. -/
structure Message where
  code : Code
  severity : Severity
  text : String
  location : Path
  line : Int
  column : Int
  snippet : String
deriving DecidableEq, Repr, Inhabited

end Npl
