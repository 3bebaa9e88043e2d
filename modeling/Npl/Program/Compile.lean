import Npl.Program.Check
import Npl.Program.Inference

/-!
# Compiling

A set of sources is compiled as one program. Sources with syntax errors are not checked any further,
but what could be read of their declarations counts. If a return type cannot be determined, the
compiler gives up, and this one fault is all it tells.

## Main definitions

* `Report`, `Outcome` — what compiling gives.
* `compile` — the outcome for a list of sources.
-/

namespace Npl

/-! ### Outcomes -/

/-- What a compilation found that ran to its end. -/
inductive Report
  | success (warnings : List Message)
  | failure (errors warnings : List Message)
deriving DecidableEq, Repr

namespace Report

/-- All messages, warnings before errors. -/
def messages : Report → List Message
  | success warnings => warnings
  | failure errors warnings => warnings ++ errors

/-- The errors, none for a success. -/
def errors : Report → List Message
  | success _ => []
  | failure errors _ => errors

/-- The warnings. -/
def warnings : Report → List Message
  | success warnings => warnings
  | failure _ warnings => warnings

/-- The report with the given errors and warnings: a success exactly if there is no error. -/
def ofFindings (errors warnings : List Message) : Report :=
  if errors.isEmpty then success warnings else failure errors warnings

end Report

/-- What a compilation gives: a report, or the fault that made the compiler give up. -/
inductive Outcome
  | finished (report : Report)
  | fault (message : Message)
deriving DecidableEq, Repr

/-! ### The compiler -/

/-- The sources as units, each with its syntax errors. -/
def readAll (sources : List Source) : List (SourceUnit × List Message) :=
  sources.map SourceUnit.read

/-- The locations of the units with syntax errors. -/
def brokenLocations (units : List (SourceUnit × List Message)) : List Path :=
  (units.filter fun (_, errors) => !errors.isEmpty).map fun (u, _) => u.location

/-- Compiles sources as one program. -/
def compile (sources : List Source) : Outcome :=
  let read := readAll sources
  let units := read.map Prod.fst
  let broken := brokenLocations read
  match findCircular Graph.findCycle? (units.filter fun u => !broken.contains u.location) with
  | some message => .fault message
  | none =>
    let (errors, warnings) := check units broken
    .finished (.ofFindings (read.flatMap Prod.snd ++ errors) warnings)

end Npl
