import Npl.Diagnostic
import Npl.Disk.Basic
import Npl.Path.Uri

/-!
# Refusals

An operation of the server can be refused. It then ends early, what it did before stays done, and
the refusal goes to whoever asked for it.

## Main definitions

* `Refusal` — the reasons why an operation ends early.
-/

namespace Npl

/-- Why an operation of the server ends early. -/
inductive Refusal
  /-- A text is no URI, or names no file. -/
  | uri (e : UriError)
  /-- A message lies where the editor has no position. -/
  | place (e : PlaceError)
  /-- A path cannot be looked up because one of its components holds a null character. -/
  | nullCharacter
  /-- The system refuses to look a path up. -/
  | lookup (e : LookupError)
  /-- Reading an archive breaks down. -/
  | archive (cause : Cause)
  /-- A text, shown in quotes, is no trace value. -/
  | traceValue (quoted : String)
  /-- Work was scheduled after the end. -/
  | stopped
deriving DecidableEq, Repr

namespace Refusal

/-- A refusal as it is shown. -/
def cause : Refusal → Cause
  | uri e => ⟨"ValueError", e.message⟩
  | place e => ⟨"ValueError", e.message⟩
  | nullCharacter => ⟨"ValueError", "embedded null byte"⟩
  | lookup e => e.cause
  | archive cause => cause
  | traceValue quoted => ⟨"ValueError", quoted ++ " is not a valid TraceValue"⟩
  | stopped => ⟨"SchedulerShutdownError", "Scheduler has been shut down"⟩

end Refusal

end Npl
