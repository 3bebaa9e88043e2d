/-!
# Positions in a text

A place in a text is known by its offset, counted in characters from zero, and by its line and
column, both counted from one. Only a line feed ends a line: a carriage return or a form feed is a
character of its line like any other.

## Main definitions

* `Position.step` — the position behind one character.
* `Position.advance` — the position behind a run of characters.
-/

namespace Npl.Text

/-- A place in a text. Lines and columns count from one, offsets from zero, all in characters. -/
structure Position where
  /-- One more than the number of line feeds before the place. -/
  line : Nat
  /-- One more than the distance from the start of the line. -/
  column : Nat
  /-- The number of characters before the place. -/
  offset : Nat
deriving DecidableEq, Repr, Inhabited

namespace Position

/-- The place before the first character of a text. -/
def start : Position := ⟨1, 1, 0⟩

/-- The place behind the character `c` that stands at `p`. -/
def step (p : Position) (c : Char) : Position :=
  if c = '\n' then ⟨p.line + 1, 1, p.offset + 1⟩ else ⟨p.line, p.column + 1, p.offset + 1⟩

/-- The place behind the characters `cs` that start at `p`. -/
def advance (p : Position) (cs : List Char) : Position :=
  cs.foldl step p

@[simp] theorem advance_nil (p : Position) : p.advance [] = p := rfl

@[simp] theorem advance_cons (p : Position) (c : Char) (cs : List Char) :
    p.advance (c :: cs) = (p.step c).advance cs := rfl

/-- Advancing over two runs in turn is advancing over them at once. -/
theorem advance_append (p : Position) (cs ds : List Char) :
    p.advance (cs ++ ds) = (p.advance cs).advance ds := by
  simp [advance]

end Position

end Npl.Text
