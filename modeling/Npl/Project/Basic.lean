import Npl.Compiler
import Npl.Display
import Npl.Documents
import Npl.Workspace.Basic

/-!
# Projects

A project is what the server works on for one editor: the documents, the workspace that decides which
of them count, the libraries, the last report, and what the editor shows. What happens to a project
depends on its surroundings, the disk and the compiler, which it does not change.

An action on a project can be refused half-way. What it did before stays done.

## Main definitions

* `Project`, `Surroundings` — a project, and what it depends on.
* `Project.Action` — something that happens to a project.
* `Project.recompile` — compiles the documents of the workspace if anything has changed.
-/

namespace Npl

/-- What a project depends on without changing it. -/
structure Surroundings where
  disk : Disk
  compiler : Compiler

/-- The documents of one editor and what is known about them. -/
structure Project where
  display : Display
  documents : Documents
  workspace : Workspace
  libraries : List Source
  /-- The report of the last compilation that ran to its end. -/
  last? : Option Report
deriving DecidableEq, Repr

namespace Project

/-- A project without documents, and without roots. -/
def start (connection : Connection) : Project :=
  ⟨.start connection, .empty, ⟨[]⟩, [], none⟩

/-! ### Actions -/

/-- Something that happens to a project, with a result or a refusal. The state is kept either way. -/
abbrev Action (α : Type) : Type := ExceptT Refusal (StateM Project) α

/-- A result that is known, or a refusal. -/
def answer {α : Type} (r : Except Refusal α) : Action α :=
  ExceptT.mk (pure r)

/-- Writes a record to the log. -/
def log (r : LogRecord) : Action Unit :=
  modify fun p => { p with display := p.display.log r }

/-- Writes a record of the service to the log. -/
def say (level : Nat) (text : String) : Action Unit :=
  log (.ofPart "service" level text)

/-- Changes what the editor shows, unless that is refused. -/
def onDisplay (f : Display → Except Refusal Display) : Action Unit := do
  let p ← get
  let display ← answer (f p.display)
  set { p with display }

/-- Changes the documents. -/
def onDocuments (f : Documents → Documents) : Action Unit :=
  modify fun p => { p with documents := f p.documents }

/-- Clears the diagnostics of a document. -/
def retract (e : Surroundings) (uri : String) : Action Unit :=
  onDisplay fun d => d.retract e.disk.workingPath uri

/-- Forgets a document. -/
def forget (e : Surroundings) (uri : String) : Action Unit := do
  let p ← get
  let (documents, _) ← answer ((p.documents.remove e.disk.workingPath uri).mapError Refusal.uri)
  set { p with documents }

/-! ### Compiling -/

/-- Whether there is nothing to compile: there is a report, and nothing has changed since. -/
def isSettled (p : Project) : Bool :=
  p.documents.dirty.entries.isEmpty && p.last?.isSome

/-- The documents that belong to the workspace. -/
def candidates (e : Surroundings) (p : Project) : Except Refusal (List Source) :=
  p.documents.all.filterM fun s => p.workspace.contains e.disk s.location

/-- The libraries at the location of none of the given documents. -/
def librariesBeside (p : Project) (documents : List Source) : List Source :=
  p.libraries.filter fun s => !(documents.map Source.location).contains s.location

/-- Runs the compiler on sources and notes so. -/
def runCompiler (e : Surroundings) (sources : List Source) : Action (Except Cause Outcome) := do
  modify fun p => { p with display.connection :=
    p.display.connection.note (.compile (sources.map Source.location)) }
  let compilation := e.compiler sources
  compilation.records.forM log
  return compilation.result

/-- Shows a fault of the compiler, if it lies in the workspace. -/
def takeFault (e : Surroundings) (m : Message) : Action Unit := do
  if ← answer ((← get).workspace.contains e.disk m.location) then
    say Level.warning ("Compiler fault in " ++ m.location.text ++ ": " ++ m.text)
    onDisplay fun d => d.showFault e.disk.workingPath m
  else
    say Level.debug ("Dropping compiler fault outside the workspace: " ++ m.text)

/-- Takes over a report about documents. The changes noted before the compiler ran are struck off. -/
def takeReport (e : Surroundings) (report : Report) (documents : List Source)
    (noted : Keyed Nat) : Action Unit := do
  modify fun p => { p with
    last? := some report
    documents := p.documents.strikeUnchanged noted }
  onDisplay fun d => d.showReport e.disk.workingPath report documents

/-- Compiles the documents of the workspace together with the libraries, if anything has changed
since the last report. The answer is the outcome if the compiler gave one. Documents stay changed
until there is a report about them. -/
def recompile (e : Surroundings) : Action (Option Outcome) := do
  let p ← get
  if p.isSettled then return none
  let documents ← answer (p.candidates e)
  if documents.isEmpty then
    say Level.debug "No sources in scope, skipping compilation"
    return none
  let dirty := p.documents.dirty
  let libraries := p.librariesBeside documents
  say Level.debug ("Compiling " ++ toString documents.length ++ " sources (" ++
    toString dirty.entries.length ++ " dirty) with " ++ toString libraries.length ++
    " library sources")
  match ← runCompiler e (documents ++ libraries) with
  | .error cause =>
    log (.ofFailure "service" ("Compiler failed unexpectedly, keeping " ++
      toString dirty.entries.length ++ " dirty sources") cause)
    return none
  | .ok (.fault m) =>
    takeFault e m
    return some (.fault m)
  | .ok (.finished report) =>
    takeReport e report documents dirty
    return some (.finished report)

end Project

end Npl
