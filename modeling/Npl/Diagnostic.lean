import Npl.Message

/-!
# Diagnostics

A diagnostic is a message as the editor shows it: a range of the document, counted from zero, with
the end behind the last character covered. The protocol admits positions up to 2147483647 only, and
a message that lies beyond has no diagnostic.

## Main definitions

* `Place.make` — a position in a document, if the protocol admits it.
* `Message.range` — the range that a message covers.
* `Message.toDiagnostic` — the diagnostic for a message.
-/

namespace Npl

/-! ### Places and ranges -/

/-- The greatest line and character number of the protocol. -/
def placeLimit : Int := 2147483647

/-- A position in a document as the editor counts it: lines and characters from zero. -/
structure Place where
  line : Int
  character : Int
deriving DecidableEq, Repr, Inhabited

/-- The two numbers of a place. -/
inductive Place.Axis
  | line
  | character
deriving DecidableEq, Repr

/-- A number that the protocol does not admit in a place. -/
structure PlaceError where
  axis : Place.Axis
  value : Int
deriving DecidableEq, Repr

/-- The wording of an error. -/
def PlaceError.message (e : PlaceError) : String :=
  let axis :=
    match e.axis with
    | .line => "line"
    | .character => "character"
  "Position." ++ axis ++ " should be in range [0:2147483647], but was " ++ toString e.value ++ "."

/-- The place with the given line and character, if both are admitted. -/
def Place.make (line character : Int) : Except PlaceError Place :=
  if line < 0 ∨ placeLimit < line then .error ⟨.line, line⟩
  else if character < 0 ∨ placeLimit < character then .error ⟨.character, character⟩
  else .ok ⟨line, character⟩

/-- A stretch of a document; the end is not part of it. -/
structure Range where
  start : Place
  stop : Place
deriving DecidableEq, Repr, Inhabited

/-- The lengths of the lines of a text; there is always at least one line. -/
def lineLengths : List Char → Nat × List Nat
  | [] => (0, [])
  | c :: cs =>
    let (first, others) := lineLengths cs
    if c = '\n' then (0, first :: others) else (first + 1, others)

/-- The range that a message covers: from its position to the end of its snippet. A snippet of
several lines ends as many lines further down, at the length of its last line. -/
def Message.range (m : Message) : Except PlaceError Range := do
  let start ← Place.make (max (m.line - 1) 0) (max (m.column - 1) 0)
  let (first, others) := lineLengths m.snippet.toList
  let stop ←
    match others.getLast? with
    | none => Place.make start.line (start.character + first)
    | some last => Place.make (start.line + others.length) last
  return ⟨start, stop⟩

/-! ### Diagnostics -/

/-- What the editor names as the origin of every diagnostic. -/
def diagnosticSource : String := "NPL compiler"

/-- A finding as the editor shows it. -/
structure Diagnostic where
  range : Range
  severity : Severity
  code : Nat
  text : String
deriving DecidableEq, Repr, Inhabited

/-- The diagnostic for a message. -/
def Message.toDiagnostic (m : Message) : Except PlaceError Diagnostic := do
  return ⟨← m.range, m.severity, m.code.number, m.text⟩

end Npl
