import Npl.Refusal
import Npl.Text.Quoted

/-!
# Trace values

The editor asks for traces of the server at one of three levels: none, messages, or everything.

## Main definitions

* `Trace` — the three values.
* `Trace.ofText` — the value with a given spelling.
* `Trace.admits` — does a value let a trace of the given level through?
-/

namespace Npl

/-- How much of its inner life the server shows the editor. -/
inductive Trace
  | off
  | messages
  | verbose
deriving DecidableEq, Repr, Inhabited

namespace Trace

/-- How a trace value is spelled. -/
def text : Trace → String
  | off => "off"
  | messages => "messages"
  | verbose => "verbose"

/-- The value with the given spelling. Case and blanks matter. -/
def ofText (s : String) : Except Refusal Trace :=
  match [off, messages, verbose].find? (·.text = s) with
  | some t => .ok t
  | none => .error (.traceValue (Text.quote s))

/-- Each value is found by its spelling. -/
theorem ofText_text (t : Trace) : ofText t.text = .ok t := by
  cases t <;> rfl

/-- The values in increasing order. -/
def rank : Trace → Nat
  | off => 0
  | messages => 1
  | verbose => 2

/-- Whether a trace of the given level is let through. Nothing is traced at level `off`. -/
def admits (t level : Trace) : Bool :=
  level ≠ off && level.rank ≤ t.rank

end Trace

end Npl
