import Npl.Disk.Basic
import Npl.Session.Log

/-!
# Snapshots

A snapshot holds all files below the roots of a workspace, each under the names that lead to it from
its root. Where two roots have a file under the same name, the first root wins. A file that may not
be read is passed over with a record. If the system refuses to look up a root or a file, or to list a
directory, there is no snapshot.

## Main definitions

* `Snapshot.take` — the snapshot of several roots.
* `Snapshot.find?` — the file with a given name.
-/

namespace Npl

/-- A file of a snapshot: its name, the path it came from, and what it holds. -/
structure SnapshotEntry where
  name : String
  origin : Path
  content : Content
deriving DecidableEq, Repr

/-- The files of a workspace. -/
abbrev Snapshot : Type := List SnapshotEntry

namespace Snapshot

/-- The file with a given name. -/
def find? (s : Snapshot) (name : String) : Option SnapshotEntry :=
  List.find? (fun e => e.name = name) s

/-- A record of a file that may not be read. -/
def unarchived (path : Path) (e : LookupError) : LogRecord :=
  .ofPart "library" Level.warning ("Could not archive " ++ path.text ++ ": " ++ e.cause.text)

/-- A snapshot to which the entries below a root are added, and what there is to say. -/
def addEntries (disk : Disk) (root : Path) (kept : Snapshot) :
    List (List String × Node) → Except LookupError Snapshot × List LogRecord
  | [] => (.ok kept, [])
  | (names, _) :: entries =>
    let path := root.below names
    let name := "/".intercalate names
    match disk.file? path with
    | .error e => (.error e, [])
    | .ok none => addEntries disk root kept entries
    | .ok (some content) =>
      if (find? kept name).isSome then addEntries disk root kept entries
      else
        match content.read path with
        | .ok _ => addEntries disk root (kept ++ [⟨name, path, content⟩]) entries
        | .error e =>
          let (added, records) := addEntries disk root kept entries
          (added, unarchived path e :: records)

/-- A snapshot to which the files below several roots are added, and what there is to say. -/
def addRoots (disk : Disk) (kept : Snapshot) :
    List Path → Except LookupError Snapshot × List LogRecord
  | [] => (.ok kept, [])
  | root :: roots =>
    match disk.directory? root with
    | .error e => (.error e, [])
    | .ok none => addRoots disk kept roots
    | .ok (some top) =>
      match disk.list root top with
      | .error e => (.error e, [])
      | .ok entries =>
        match addEntries disk root kept entries with
        | (.error e, records) => (.error e, records)
        | (.ok added, records) =>
          let (all, more) := addRoots disk added roots
          (all, records ++ more)

/-- The snapshot of several roots, and what there is to say. -/
def take (disk : Disk) (roots : List Path) : Except LookupError Snapshot × List LogRecord :=
  addRoots disk [] roots

end Snapshot

end Npl
