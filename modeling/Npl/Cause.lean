/-!
# Causes

A failure is shown to the user as a kind and a text.

## Main definitions

* `Cause` — a failure as it is shown.
-/

namespace Npl

/-- A failure as it is shown to the user. -/
structure Cause where
  kind : String
  text : String
deriving DecidableEq, Repr

/-- A failure on one line. -/
def Cause.line (c : Cause) : String :=
  c.kind ++ ": " ++ c.text

end Npl
