import Npl.Board
import Npl.Session.Connection

/-!
# What the editor shows

The board of diagnostics and the connection belong together: whatever changes on the board is sent to
the editor right away, and nothing else sends diagnostics. An operation that is refused changes
nothing and sends nothing.

## Main definitions

* `Display` — the board and the connection.
* `Display.showReport`, `Display.showFault`, `Display.retract` — changing what the editor shows.
-/

namespace Npl

/-- What the editor shows, and the connection to it. -/
structure Display where
  board : Board
  connection : Connection
deriving DecidableEq, Repr

namespace Display

/-- Nothing is shown yet. -/
def start (connection : Connection) : Display :=
  ⟨.empty, connection⟩

/-- Writes a record to the log. -/
def log (d : Display) (r : LogRecord) : Display :=
  { d with connection := d.connection.log r }

/-- Sends lists of diagnostics. -/
def send (d : Display) (notices : List Notice) : Display :=
  { d with connection := notices.foldl (fun c (uri, ds) => c.publish uri ds) d.connection }

/-- Shows a report about the given documents: first the documents, then empty lists for those that
are not among them any more. -/
def showReport (d : Display) (workingDirectory : Path) (report : Report)
    (documents : List Source) : Except Refusal Display := do
  let (board, current, stale) ← d.board.showReport workingDirectory report documents
  let sent := { d with board }.send (current ++ stale)
  return sent.log (.ofPart "publisher" Level.debug
    ("Published diagnostics for " ++ toString current.length ++ " documents, retracted " ++
      toString stale.length))

/-- Shows a fault at its document. -/
def showFault (d : Display) (workingDirectory : Path) (message : Message) :
    Except Refusal Display := do
  let (board, notice) ← d.board.showFault workingDirectory message
  return { d with board }.send [notice]

/-- Clears the diagnostics of a document. -/
def retract (d : Display) (workingDirectory : Path) (uri : String) : Except Refusal Display := do
  let (board, notice) ← d.board.retract workingDirectory uri
  return { d with board }.send [notice]

end Display

end Npl
