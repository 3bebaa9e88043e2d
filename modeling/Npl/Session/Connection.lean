import Npl.Session.Log

/-!
# Connections

The server talks to one editor. It sends lists of diagnostics, log messages and, if the editor can
take them and has asked for them, traces. Records of the log reach the editor if they pass: news and
worse as log messages, the rest as traces.

Everything that happens is kept in order in a journal.

## Main definitions

* `Event` — what can happen.
* `Connection` — the editor's abilities, its trace value, the log levels, and the journal.
* `Connection.publish`, `Connection.log`, `Connection.trace` — talking to the editor.
-/

namespace Npl

/-- The urgency of a log message. -/
inductive MessageType
  | error
  | warning
  | info
deriving DecidableEq, Repr

/-- What can happen. -/
inductive Event
  /-- The diagnostics of a document were sent. -/
  | publish (uri : String) (diagnostics : List Diagnostic)
  /-- A log message was sent. -/
  | log (type : MessageType) (text : String)
  /-- A trace was sent. -/
  | trace (text : String)
  /-- The compiler was run on sources at these locations. -/
  | compile (locations : List Path)
deriving DecidableEq, Repr

/-- What the editor at the other end can take. -/
inductive Client
  /-- There is no editor. -/
  | absent
  /-- It takes diagnostics and log messages. -/
  | plain
  /-- It takes traces as well. -/
  | tracing
deriving DecidableEq, Repr, Inhabited

/-- The editor, what it asked for, what the log lets through, and what happened so far. -/
structure Connection where
  client : Client
  trace : Trace
  levels : LogLevels
  /-- Whether records of the log are passed on to the editor at all. -/
  forwarding : Bool
  journal : List Event
deriving DecidableEq, Repr

namespace Connection

/-- A new connection to the given client; nothing is traced. -/
def start (client : Client) (topLevel : Nat) (forwarding : Bool) : Connection :=
  ⟨client, .off, ⟨.empty, topLevel⟩, forwarding, []⟩

/-- Notes an event. -/
def note (c : Connection) (e : Event) : Connection :=
  { c with journal := c.journal ++ [e] }

/-! ### Talking to the editor -/

/-- Sends a trace if the editor takes traces and its trace value admits the level. -/
def sendTrace (c : Connection) (level : Trace) (text : String) : Connection :=
  if c.client = .tracing && c.trace.admits level then c.note (.trace text) else c

/-- The urgency of a record of the given level. -/
def messageType (level : Nat) : MessageType :=
  if Level.error ≤ level then .error else if Level.warning ≤ level then .warning else .info

/-- What every log message starts with. -/
def messagePrefix : String := "NPL Language Server: "

/-- The text of a record with the failure that it tells of. -/
def fullText (r : LogRecord) : String :=
  match r.cause? with
  | none => r.text
  | some cause => r.text ++ " - " ++ cause.line

/-- Passes a record on to the editor. -/
def forward (c : Connection) (r : LogRecord) : Connection :=
  if Level.info ≤ r.level then
    if c.client = .absent then c
    else c.note (.log (messageType r.level) (messagePrefix ++ fullText r))
  else
    c.sendTrace (if Level.debug ≤ r.level then .messages else .verbose) (r.name ++ ": " ++ r.text)

/-- Writes a record to the log. It reaches the editor if it passes, is at least of the level of
traces, and was written under the server's name or below. -/
def log (c : Connection) (r : LogRecord) : Connection :=
  if c.forwarding && c.levels.passes r && Level.trace ≤ r.level &&
      (namesFrom r.name).contains serverName then
    c.forward r
  else c

/-- Writes several records to the log. -/
def logAll (c : Connection) (rs : List LogRecord) : Connection :=
  rs.foldl log c

/-- Sends the diagnostics of a document. Without an editor there is only a record of it. -/
def publish (c : Connection) (uri : String) (diagnostics : List Diagnostic) : Connection :=
  if c.client = .absent then
    c.log (.ofPart "publisher" Level.debug
      ("No client connected, not publishing diagnostics for " ++ uri))
  else c.note (.publish uri diagnostics)

/-! ### Traces -/

/-- Takes over a trace value. -/
def setTrace (c : Connection) (t : Trace) : Connection :=
  { c with trace := t }

/-- Gives a name the log level that goes with a trace value. -/
def syncLevel (c : Connection) (t : Trace) (name : String) : Connection :=
  { c with levels := c.levels.set name t.logLevel }

end Connection

end Npl
