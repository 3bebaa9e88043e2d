import Npl.Program.Compile
import Npl.Session.Log

/-!
# Compilers

The server does not depend on one particular compiler. A compiler takes a list of sources; it says
what it did, and gives an outcome unless it breaks down.

## Main definitions

* `Compiler`, `Compilation` — a compiler, and what one run of it gives.
* `Compiler.standard` — the compiler of this library. It never breaks down.
-/

namespace Npl

/-- What one run of a compiler gives: what there is to say about it, and the outcome or the failure
that it broke down with. -/
structure Compilation where
  records : List LogRecord
  result : Except Cause Outcome

/-- Anything that compiles sources. -/
abbrev Compiler : Type := List Source → Compilation

/-- What there is to say about an outcome for the given number of sources. -/
def Outcome.record (count : Nat) : Outcome → LogRecord
  | .fault m => .ofPart "compiler" Level.debug ("Compiler fault: " ++ m.text)
  | .finished report => .ofPart "compiler" Level.debug
    ("Compiled " ++ toString count ++ " sources: " ++ toString report.errors.length ++
      " errors, " ++ toString report.warnings.length ++ " warnings")

/-- The compiler of this library. -/
def Compiler.standard : Compiler := fun sources =>
  let outcome := compile sources
  ⟨[outcome.record sources.length], .ok outcome⟩

end Npl
