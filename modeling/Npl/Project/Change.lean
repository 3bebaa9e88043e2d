import Npl.Project.Basic
import Npl.Workspace.Library

/-!
# Changes to a project

Documents are opened, edited, closed and deleted, and the workspace gets other roots. After each
change the project is compiled again, unless the change says that more will follow.

## Main definitions

* `Project.update`, `Project.remove`, `Project.close` — changes to one document.
* `gather` — what the disk holds for a workspace.
* `Project.setRoots`, `Project.load` — changes to the whole workspace.
-/

namespace Npl

/-- The sources below roots and those of libraries, and what there is to say. -/
def gather (disk : Disk) (roots : List Path) (references : List String) :
    Except Refusal (List Source × List Source) × List LogRecord :=
  match discover disk roots with
  | (.error e, records) => (.error (.lookup e), records)
  | (.ok sources, records) =>
    let (libraries, more) := Library.load disk references roots
    (libraries.map (sources, ·), records ++ more)

namespace Project

/-! ### Documents -/

/-- Drops a document that left the workspace, if it was known. -/
def dropOutside (e : Surroundings) (uri : String) : Action Unit := do
  if ← answer (((← get).documents.contains e.disk.workingPath uri).mapError Refusal.uri) then
    say Level.info ("Document " ++ uri ++ " is outside the workspace, dropping it")
    forget e uri
    retract e uri
    discard (recompile e)

/-- Takes over the full text of a document, and compiles if that is asked for. Only source files of
the workspace are taken over; the answer tells whether the document was one. -/
def update (e : Surroundings) (uri content : String) (compileNow : Bool) : Action Bool := do
  match Path.ofUri uri with
  | .error _ =>
    say Level.debug ("Ignoring non-file document " ++ uri)
    return false
  | .ok path =>
    if !path.isSource then return false
    if ← answer ((← get).workspace.contains e.disk path) then
      onDocuments fun d => (d.update e.disk.workingPath uri content).1
      if compileNow then discard (recompile e)
      return true
    else
      dropOutside e uri
      return false

/-- Forgets a document, compiles the others without it, and clears its diagnostics. -/
def remove (e : Surroundings) (uri : String) : Action Unit := do
  forget e uri
  discard (recompile e)
  retract e uri

/-- Removes a document that was closed, if its file is gone. The answer tells whether it is. -/
def close (e : Surroundings) (uri : String) : Action Bool := do
  match Path.ofUri uri with
  | .error _ => return false
  | .ok path =>
    if ← answer ((e.disk.exists? path).mapError Refusal.lookup) then return false
    remove e uri
    return true

/-! ### Workspaces -/

/-- The paths of roots. A root that is no file is passed over. -/
def rootPaths : List String → Action (List Path)
  | [] => return []
  | uri :: uris =>
    match Path.ofUri uri with
    | .ok path => return path :: (← rootPaths uris)
    | .error _ => do
      say Level.warning ("Ignoring non-file workspace root " ++ uri)
      rootPaths uris

/-- Drops those of the given documents that do not belong to the workspace. -/
def dropLeaving (e : Surroundings) : List Source → Action Unit
  | [] => return
  | s :: ss => do
    if !(← answer ((← get).workspace.contains e.disk s.location)) then
      say Level.debug ("Document " ++ s.uri ++ " left the workspace")
      forget e s.uri
      retract e s.uri
    dropLeaving e ss

/-- Gives the workspace other roots, and drops the documents that do not belong to it then. -/
def setRoots (e : Surroundings) (uris : List String) : Action Unit := do
  let roots ← rootPaths uris
  modify fun p => { p with workspace := ⟨roots⟩ }
  dropLeaving e (← get).documents.all
  discard (recompile e)

/-- Gives the workspace other roots and other libraries, and replaces the documents by the sources
found below the roots. -/
def load (e : Surroundings) (uris references : List String) : Action Unit := do
  let roots ← rootPaths uris
  let (gathered, records) := gather e.disk roots references
  records.forM log
  let (sources, libraries) ← answer gathered
  let p ← get
  let (documents, vanished) := p.documents.replaceAll e.disk.workingPath sources
  set { p with workspace := ⟨roots⟩, documents }
  let vanished ← answer (vanished.mapError Refusal.uri)
  modify fun p => { p with libraries }
  (vanished.mergeSort fun a b => !(b < a)).forM (retract e)
  discard (recompile e)

end Project

end Npl
