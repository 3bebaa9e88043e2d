import Npl.Disk.Basic
import Npl.Refusal

/-!
# The workspace

The workspace consists of everything below its root directories. What counts is where paths really
lead, at the time of asking: a link out of the workspace does not belong to it, and neither does a
file that is not there. As long as there are no roots, every path belongs to it.

## Main definitions

* `Workspace` — the roots.
* `Workspace.contains` — does a path belong to the workspace?
-/

namespace Npl

/-- The root directories of a workspace. -/
structure Workspace where
  roots : List Path
deriving DecidableEq, Repr

namespace Workspace

/-- Whether a real location lies in one of the roots. A root that leads nowhere holds nothing. -/
def holds (disk : Disk) (l : Location) : List Path → Except Refusal Bool
  | [] => .ok false
  | root :: roots =>
    match disk.realPath root with
    | .at top => if top <+: l then .ok true else holds disk l roots
    | .nowhere => holds disk l roots
    | .nullCharacter => .error .nullCharacter

/-- Whether a path belongs to the workspace. -/
def contains (w : Workspace) (disk : Disk) (p : Path) : Except Refusal Bool :=
  if w.roots.isEmpty then .ok true
  else
    match disk.realPath p with
    | .at l => holds disk l w.roots
    | .nowhere => .ok false
    | .nullCharacter => .error .nullCharacter

end Workspace

end Npl
