import Npl.Folders
import Npl.Project.Change
import Npl.Request
import Npl.Timer.Script

/-!
# The server

The server follows the requests of one editor. It keeps the project up to date with the documents
and compiles it after each change. While a document is being edited it waits for a quiet period
first, so that a burst of edits is compiled once.

The server has no clock of its own: it is told how much time passes. The time may be of any type that
a timer can use. Whoever is to do what is due can wait for any time here. How doing it may come to an
end otherwise is told of a queue and its worker.

## Main definitions

* `Server` — the project, the timer, and what the editor asked for.
* `Server.handle` — what a request does.
* `Server.advance` — what happens while time passes.
-/

namespace Npl

/-- The state of the server. `quiet` is the time without edits after which the project is compiled;
if it is not positive, it is compiled after each edit. -/
structure Server (τ : Type) where
  project : Project
  timer : Timer τ Unit
  now : τ
  roots : List String
  quiet : τ
  libraries : List String

namespace Server

variable {τ : Type}

/-- A server at the start of a connection. -/
def start [OfNat τ 0] (connection : Connection) (quiet : τ) (libraries : List String) : Server τ :=
  ⟨.start connection, .start quiet, 0, [], quiet, libraries⟩

/-! ### Actions -/

/-- Something that the server does, with a result or a refusal. The state is kept either way. -/
abbrev Action (τ α : Type) : Type := ExceptT Refusal (StateM (Server τ)) α

/-- Does something with the project. -/
def onProject {α : Type} (a : Project.Action α) : Action τ α := fun s =>
  let (result, project) := a s.project
  (result, { s with project })

/-- Writes a record to the log. -/
def log (r : LogRecord) : Action τ Unit :=
  onProject (Project.log r)

/-- Writes a record of the server to the log. -/
def say (level : Nat) (text : String) : Action τ Unit :=
  log (.ofPart "lsp" level text)

/-- Gives the connection another trace value, and the server's name the log level for it. -/
def applyTrace (text : String) : Action τ Unit := do
  let t ← onProject (Project.answer (Trace.ofText text))
  onProject <| modify fun p => { p with display.connection :=
    (p.display.connection.setTrace t).syncLevel t serverName }

/-- How a trace value that was asked for is shown. -/
def traceTitle (text : String) : String :=
  match Trace.ofText text with
  | .ok .off => "TraceValue.Off"
  | .ok .messages => "TraceValue.Messages"
  | .ok .verbose => "TraceValue.Verbose"
  | .error _ => text

/-! ### Edits -/

/-- The key of the task that compiles the project. -/
def compileKey : String := "workspace"

/-- Compiles the project after a quiet period. -/
def compileLater [Add τ] (uri : String) : Action τ Unit := do
  let s ← get
  match s.timer.schedule s.now compileKey () none with
  | some timer => set { s with timer }
  | none => say Level.debug ("Change to " ++ uri ++ " after shutdown, not compiling")

/-- Takes over the latest text of a document, and compiles now or after a quiet period. -/
def edit [Add τ] [LT τ] [DecidableLT τ] [OfNat τ 0] (e : Surroundings) (uri : String)
    (texts : List String) : Action τ Unit := do
  match texts.getLast? with
  | none => return
  | some text =>
    if ← onProject (Project.update e uri text false) then
      if 0 < (← get).quiet then compileLater uri
      else discard (onProject (Project.recompile e))

/-! ### Folders -/

/-- Makes the given folders the roots, and loads the project from them. -/
def loadRoots (e : Surroundings) (roots : List String) : Action τ Unit := do
  modify fun s => { s with roots }
  onProject (Project.load e roots (← get).libraries)

/-- Starts with the folders that the editor names. -/
def connect (e : Surroundings) (folders : List String) (options : Json)
    (trace? : Option String) : Action τ Unit := do
  trace?.forM applyTrace
  let (roots, records) := chooseFolders options folders
  records.forM log
  if roots.isEmpty then say Level.warning "No workspace folders found to preload."
  else
    say Level.info ("Preloading sources for workspace folders: " ++ Text.quoteList roots)
    loadRoots e roots

/-- The roots without those that were removed, and with those that were added and are new, at the
end. -/
def changeRoots (roots added removed : List String) : List String :=
  added.foldl (fun roots uri => if roots.contains uri then roots else roots ++ [uri])
    (roots.filter fun uri => !removed.contains uri)

/-- Follows a change of the folders. Without any folders the documents are kept, and all of them
belong to the workspace. -/
def changeFolders (e : Surroundings) (added removed : List String) : Action τ Unit := do
  let roots := changeRoots (← get).roots added removed
  say Level.info ("Workspace folders changed: " ++ Text.quoteList roots)
  if roots.isEmpty then
    modify fun s => { s with roots }
    onProject (Project.setRoots e [])
  else loadRoots e roots

/-! ### Requests -/

/-- Forgets a file that was deleted. Files that came or changed are of no interest, since the editor
sends the documents it works on. -/
def followFile (e : Surroundings) (change : FileChange) (uri : String) : Action τ Unit := do
  if change = .deleted then
    say Level.debug ("File deleted: " ++ uri)
    onProject (Project.remove e uri)

/-- What a request does. -/
def handle [Add τ] [LT τ] [DecidableLT τ] [OfNat τ 0] (e : Surroundings) :
    Request → Action τ Unit
  | .connect folders options trace? => connect e folders options trace?
  | .setTrace value => do
    say Level.info ("Setting trace value to: " ++ traceTitle value)
    applyTrace value
  | .shutdown => do
    say Level.info "Language server shutting down"
    modify fun s => { s with timer := s.timer.shutdown }
  | .opened uri text => discard (onProject (Project.update e uri text true))
  | .edited uri texts => edit e uri texts
  | .closed uri => do
    if ← onProject (Project.close e uri) then
      say Level.debug ("Closed document " ++ uri ++ " no longer exists, removed")
  | .saved _ => return
  | .filesChanged changes => changes.forM fun (change, uri) => followFile e change uri
  | .foldersChanged added removed => changeFolders e added removed

/-! ### Time -/

/-- Compiles the project because a task is due. A refusal is recorded and goes no further. -/
def runTask (e : Surroundings) (key : String) : Action τ Unit :=
  tryCatch (discard (onProject (Project.recompile e))) fun refusal =>
    log (Timer.failure key refusal.cause)

/-- Lets the given time pass and does what is due then. The answer tells how long there is nothing
to do from there on. -/
def advance [Add τ] [Sub τ] [LT τ] [DecidableLT τ] (e : Surroundings) (time : τ) :
    Action τ (Wait τ) := do
  let s ← get
  let now := s.now + time
  let (tasks, timer) := s.timer.takeDue now
  set { s with now, timer }
  tasks.forM fun task => runTask e task.key
  return (← get).timer.wait now

end Server

end Npl
