import Npl.Keyed
import Npl.Program.Compile
import Npl.Refusal

/-!
# The board of diagnostics

The editor shows, for each document, the diagnostics it was last sent. The board keeps what these
are, so that a document that is no longer compiled can be sent an empty list.

An operation first works out what it has to send, which may be refused, and only then changes the
board. It answers the lists to send in order.

## Main definitions

* `Board.showReport` — the lists for a report about the given documents.
* `Board.showFault` — the list for a fault.
* `Board.retract` — an empty list for a document.
-/

namespace Npl

/-- The diagnostics last sent for each URI. -/
structure Board where
  shown : Keyed (List Diagnostic)
deriving DecidableEq, Repr

/-- A list of diagnostics and the URI that it is sent for. -/
abbrev Notice : Type := String × List Diagnostic

namespace Board

/-- Nothing was sent yet. -/
def empty : Board :=
  ⟨.empty⟩

/-- The diagnostics for messages, each with the canonical URI of its location. -/
def locate (workingDirectory : Path) (messages : List Message) :
    Except Refusal (List (String × Diagnostic)) :=
  messages.mapM fun m =>
    m.toDiagnostic.mapError Refusal.place |>.map fun d => (m.location.toUri workingDirectory, d)

/-- The canonical URIs of documents. -/
def keysOf (workingDirectory : Path) (documents : List Source) : Except Refusal (List String) :=
  documents.mapM fun s => (canonicalUri workingDirectory s.uri).mapError Refusal.uri

/-- Shows a report about documents. Each of them is sent the messages located there, and each
document shown so far that is not among them is sent an empty list. Messages located elsewhere are
sent nowhere. -/
def showReport (b : Board) (workingDirectory : Path) (report : Report) (documents : List Source) :
    Except Refusal (Board × List Notice × List Notice) := do
  let located ← locate workingDirectory report.messages
  let keys ← keysOf workingDirectory documents
  let current := Keyed.ofList <| keys.map fun key =>
    (key, located.filterMap fun (uri, d) => if uri = key then some d else none)
  let stale := b.shown.keys.filter fun key => !current.contains key
  return (⟨current⟩, current.entries, stale.map (·, []))

/-- Shows a fault at the document that it is located at; all else stays as it is shown. -/
def showFault (b : Board) (workingDirectory : Path) (message : Message) :
    Except Refusal (Board × Notice) := do
  let d ← message.toDiagnostic.mapError Refusal.place
  let uri := message.location.toUri workingDirectory
  return (⟨b.shown.set uri [d]⟩, uri, [d])

/-- Clears the diagnostics of a document, whether or not any are shown. -/
def retract (b : Board) (workingDirectory : Path) (uri : String) :
    Except Refusal (Board × Notice) := do
  let key ← (canonicalUri workingDirectory uri).mapError Refusal.uri
  return (⟨b.shown.erase key⟩, key, [])

end Board

end Npl
