import Npl.Disk.Basic
import Npl.Path.Source
import Npl.Path.Uri
import Npl.Program.Unit
import Npl.Session.Log
import Npl.Text.Newline

/-!
# Discovery

The sources of a workspace are found by going through its roots. Every file below a root whose name
ends like that of a source counts, except in directories that a build writes to. What cannot be read
is passed over with a record, and changes nothing about the rest. A root is not passed over: if the
system refuses to look it up, or to list a directory below it, there is no result for any root.

## Main definitions

* `readText` — the text of a file.
* `discover` — the sources below several roots.
-/

namespace Npl

/-- Why a file has no text. -/
inductive ReadError
  | refused (e : LookupError)
  | notText (e : Text.Utf8.Error)
deriving DecidableEq, Repr

/-- The wording of an error. -/
def ReadError.message : ReadError → String
  | refused e => e.cause.text
  | notText e => e.message

/-- The text of a file at a path, with its line ends unified. -/
def readText (path : Path) (content : Content) : Except ReadError String := do
  let bs ← (content.read path).mapError ReadError.refused
  let cs ← (Text.Utf8.decode bs).mapError ReadError.notText
  return String.ofList (Text.unifyNewlines cs)

/-- Whether a name ends like that of a source file. -/
def isSourceName (name : String) : Bool :=
  sourceSuffix.toList.isSuffixOf name.toList

/-- Those of the entries below a directory whose names end like those of sources. -/
def sourceEntries (entries : List (List String × Node)) : List (List String × Node) :=
  entries.filter fun (names, _) => isSourceName (names.getLast?.getD "")

/-- A record of what could not be read. -/
def unreadable (path : Path) (message : String) : LogRecord :=
  .ofPart "workspace" Level.warning ("Could not read " ++ path.text ++ ": " ++ message)

/-- What is found at one entry below a root: at most one source, and what there is to say. -/
def discoverEntry (disk : Disk) (root : Path) (entry : List String × Node) :
    Option Source × List LogRecord :=
  let (names, node) := entry
  let path := root.below names
  if path.isBuildOutput root then (none, [])
  else
    match disk.file? path with
    | .error e => (none, [unreadable path e.cause.text])
    | .ok none =>
      match node with
      | .link _ =>
        (none, [.ofPart "workspace" Level.warning ("Skipping broken symlink " ++ path.text)])
      | _ => (none, [])
    | .ok (some content) =>
      match readText path content with
      | .ok text => (some ⟨path.toUri disk.workingPath, path, text, false⟩, [])
      | .error e => (none, [unreadable path e.message])

/-- The sources below one root, and what there is to say. -/
def discoverRoot (disk : Disk) (root : Path) :
    Except LookupError (List Source × List LogRecord) := do
  match ← disk.directory? root with
  | none =>
    return ([], [.ofPart "workspace" Level.warning
      ("Workspace root " ++ root.text ++ " is not a directory, skipping")])
  | some top =>
    let found := (sourceEntries (← disk.list root top)).map (discoverEntry disk root)
    return (found.filterMap Prod.fst, found.flatMap Prod.snd)

/-- The sources below several roots up to the first one that is refused, and what there is to say. -/
def discoverFrom (disk : Disk) : List Path → Except LookupError (List Source) × List LogRecord
  | [] => (.ok [], [])
  | root :: roots =>
    match discoverRoot disk root with
    | .error e => (.error e, [])
    | .ok (sources, records) =>
      let (others, more) := discoverFrom disk roots
      (others.map (sources ++ ·), records ++ more)

/-- The sources below several roots, and what there is to say. -/
def discover (disk : Disk) (roots : List Path) : Except LookupError (List Source) × List LogRecord :=
  match discoverFrom disk roots with
  | (.error e, records) => (.error e, records)
  | (.ok sources, records) => (.ok sources, records ++ [.ofPart "workspace" Level.info
    ("Discovered " ++ toString sources.length ++ " sources in " ++ toString roots.length ++
      " workspace roots")])

end Npl
