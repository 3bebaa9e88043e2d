import Npl.Json.Basic

/-!
# Requests

What the editor tells the server: how the connection starts and ends, what happens to the documents
that are open, and what happens to files and folders elsewhere.

## Main definitions

* `Request` — the requests.
-/

namespace Npl

/-- What happened to a file. -/
inductive FileChange
  | created
  | changed
  | deleted
deriving DecidableEq, Repr

/-- What the editor tells the server. -/
inductive Request
  /-- The connection starts, with the folders of the workspace, options in JSON, and perhaps a trace
  value. -/
  | connect (folders : List String) (options : Json) (trace? : Option String)
  /-- The editor wants another trace value. -/
  | setTrace (value : String)
  /-- The connection is about to end. -/
  | shutdown
  /-- A document was opened. -/
  | opened (uri text : String)
  /-- A document was edited. Each of the texts is its full text, the last one as it is now. -/
  | edited (uri : String) (texts : List String)
  /-- A document was closed. -/
  | closed (uri : String)
  /-- A document was saved. -/
  | saved (uri : String)
  /-- Files changed on the disk. -/
  | filesChanged (changes : List (FileChange × String))
  /-- Folders came to the workspace and left it. -/
  | foldersChanged (added removed : List String)
deriving Repr

end Npl
