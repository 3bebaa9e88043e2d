import Npl.Text.Pieces

/-!
# Paths

A path is a list of components below a root. Its text is read with blanks kept as they are: empty
components and single dots are dropped, and everything else, double dots included, is a component.
A path that starts with exactly two slashes has a root of its own; one slash and three or more mean
the same root; no slash makes the path relative.

A component is a string of Unicode characters. A system may know names whose bytes are no text; files
with such names, and what would stand for their bytes, are left out.

## Main definitions

* `Path.ofText`, `Path.text` — reading and writing paths.
* `Path.join`, `Path.below` — putting one path below another.
* `Path.relativeTo?` — the components of a path below another one.
* `Path.suffix` — the part of the last component from its last dot on.
-/

namespace Npl

/-- Where a path starts. -/
inductive Path.Root
  /-- Nowhere in particular. -/
  | relative
  /-- At `/`. -/
  | single
  /-- At `//`. -/
  | double
deriving DecidableEq, Repr, Inhabited

/-- A root and the components below it. -/
structure Path where
  root : Path.Root
  parts : List String
deriving DecidableEq, Repr, Inhabited

namespace Path

open Text (pieces)

/-! ### Reading and writing -/

/-- The slashes that a root is written with. -/
def Root.text : Root → String
  | relative => ""
  | single => "/"
  | double => "//"

/-- The root that the slashes at the start of a text mean. -/
def rootOf (cs : List Char) : Root :=
  match (cs.takeWhile (· = '/')).length with
  | 0 => .relative
  | 2 => .double
  | _ => .single

/-- The components of a text: its pieces without the empty ones and single dots. -/
def partsOf (cs : List Char) : List String :=
  ((pieces '/' cs).filter fun w => w ≠ [] ∧ w ≠ ['.']).map String.ofList

/-- The path that a text names. -/
def ofText (s : String) : Path :=
  ⟨rootOf s.toList, partsOf s.toList⟩

/-- A path as text. The path without root and components is a dot. -/
def text (p : Path) : String :=
  match p.root, p.parts with
  | .relative, [] => "."
  | root, parts => root.text ++ "/".intercalate parts

/-! ### Putting paths together -/

/-- Whether a path starts at a root. -/
def isAbsolute (p : Path) : Bool :=
  p.root ≠ .relative

/-- The path `q` as seen from `p`: below `p` if it is relative, and `q` itself otherwise. -/
def join (p q : Path) : Path :=
  if q.isAbsolute then q else ⟨p.root, p.parts ++ q.parts⟩

/-- The path made of further components below `p`. -/
def below (p : Path) (parts : List String) : Path :=
  ⟨p.root, p.parts ++ parts⟩

/-- The components of `p` below `q`, if `p` lies below `q` component by component or is `q`. -/
def relativeTo? (p q : Path) : Option (List String) :=
  if p.root = q.root ∧ q.parts <+: p.parts then some (p.parts.drop q.parts.length) else none

/-! ### Names -/

/-- The last component, empty if there is none. -/
def name (p : Path) : String :=
  p.parts.getLast?.getD ""

/-- The characters of a name behind its last dot, and all of them without a dot. -/
def afterDot (cs : List Char) : List Char :=
  (cs.reverse.takeWhile (· ≠ '.')).reverse

/-- The part of a name from its last dot on, empty if that dot is its first or its last character
or there is none. -/
def suffixOf (name : String) : String :=
  let cs := name.toList
  let tail := afterDot cs
  if tail ≠ [] ∧ tail.length + 1 < cs.length then String.ofList ('.' :: tail) else ""

/-- The suffix of the last component. -/
def suffix (p : Path) : String :=
  suffixOf p.name

/-! ### Order -/

/-- The order of lists of components: component by component, each by its characters. -/
def partsLe : List String → List String → Bool
  | [], _ => true
  | _ :: _, [] => false
  | a :: p, b :: q => if a = b then partsLe p q else a < b

end Path

end Npl
