import Npl.Path.Basic

/-!
# Source files and build output

Whether a path can be a source file is decided by its suffix, and whether it is build output by the
directories it passes through.

## Main definitions

* `Path.isSource` — has the path the suffix of source files?
* `Path.isBuildOutput` — does the path pass through a build directory below a root?
-/

namespace Npl

/-- The suffix of source files. -/
def sourceSuffix : String := ".npl"

/-- The name of the directories that a build writes to. -/
def buildDirectory : String := "target"

namespace Path

/-- Whether the path has the suffix of source files. -/
def isSource (p : Path) : Bool :=
  p.suffix = sourceSuffix

/-- Whether a build directory lies on the way from `root` to `p`. For a path that is not below the
root, all its directories count. -/
def isBuildOutput (p root : Path) : Bool :=
  ((p.relativeTo? root).getD p.parts).dropLast.contains buildDirectory

end Path

end Npl
