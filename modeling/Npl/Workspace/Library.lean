import Npl.Refusal
import Npl.Workspace.Discovery
import Npl.Workspace.Snapshot

/-!
# Libraries

A library is a directory or an archive with sources in it, named by a reference. A reference that is
a file URI or an absolute path is looked up on the disk; any other is the name of a file or directory
of the workspace, taken from a snapshot. A reference that leads to nothing, or to something that
cannot be read, is passed over with a record. Three things end loading without a result for any of
the references: a workspace of which there is no snapshot, a reference that should be a URI and is
none, and an archive that is not damaged but cannot be read for other reasons.

## Main definitions

* `Library.find` — the sources that a reference stands for.
* `Library.load` — the sources of several references.
-/

namespace Npl.Library

/-- Why a library cannot be read. -/
inductive Flaw
  | unreadable (e : ReadError)
  /-- An archive is none. -/
  | damaged (text : String)
  /-- Reading an archive breaks down. -/
  | unsupported (cause : Cause)
deriving DecidableEq, Repr

/-- The wording of a flaw. -/
def Flaw.message : Flaw → String
  | unreadable e => e.message
  | damaged text => text
  | unsupported cause => cause.text

/-- The failure that a flaw is for everyone, if loading does not pass over it. -/
def Flaw.fatal? : Flaw → Option Cause
  | unsupported cause => some cause
  | damaged _ | unreadable _ => none

/-- The flaw of a path that is refused. -/
def Flaw.refused (e : LookupError) : Flaw :=
  .unreadable (.refused e)

/-- What was read from an archive, or its flaw. -/
def ofReading {α : Type} : ArchiveReading α → Except Flaw α
  | .done a => .ok a
  | .damaged text => .error (.damaged text)
  | .unsupported cause => .error (.unsupported cause)

/-- The suffix of archives. -/
def archiveSuffix : String := ".zip"

/-- The URI of a member of an archive, given the URI of the archive. -/
def memberUri (archive member : String) : String :=
  "zip:" ++ archive ++ "!/" ++ member

/-! ### Sources of a library -/

/-- The source at a path in a directory, if a file is there. Its line ends are unified, as those of
all files on the disk. -/
def ofFile (disk : Disk) (path : Path) : Except Flaw (Option Source) := do
  match ← (disk.file? path).mapError Flaw.refused with
  | none => return none
  | some content =>
    let text ← (readText path content).mapError Flaw.unreadable
    return some ⟨path.toUri disk.workingPath, path, text, true⟩

/-- The sources in a directory. -/
def ofDirectory (disk : Disk) (path : Path) (top : Location) : Except Flaw (List Source) := do
  let entries ← (disk.list path top).mapError Flaw.refused
  let found ← (sourceEntries entries).mapM fun (names, _) => ofFile disk (path.below names)
  return found.filterMap id

/-- Bytes as text, with line ends as they are. -/
def decodeText (bs : List UInt8) : Except Flaw String :=
  ((Text.Utf8.decode bs).mapError fun e => .unreadable (.notText e)).map String.ofList

/-- What reading a name in an archive gives: what the member holds that was added last under it. -/
def readMember (members : List ArchiveMember) (name : String) : Except Flaw (List UInt8) :=
  match members.reverse.find? (·.name = name) with
  | some member => ofReading member.reading
  | none => .ok []

/-- The members of what a file holds as an archive. -/
def membersOf (path : Path) : Content → Except Flaw (List ArchiveMember)
  | .bytes _ => .error (.damaged "File is not a zip file")
  | .archive _ members => ofReading members
  | .locked => .error (.refused (.denied path))

/-- The sources in an archive at a path, ordered by the names of the members. -/
def ofArchive (disk : Disk) (path : Path) (content : Content) : Except Flaw (List Source) := do
  let members ← membersOf path content
  let names := (members.map ArchiveMember.name).filter isSourceName
  (names.mergeSort fun a b => !(b < a)).mapM fun name => do
    let text ← decodeText (← readMember members name)
    return ⟨memberUri (path.toUri disk.workingPath) name, path.join (.ofText name), text, true⟩

/-- The sources below a directory of the workspace, ordered by their names. -/
def ofSnapshot (disk : Disk) (snapshot : Snapshot) (directory : String) :
    Except Flaw (Option (List Source)) :=
  let start := directory ++ "/"
  let entries := (List.filter (fun e => start.toList.isPrefixOf e.name.toList &&
    isSourceName e.name) snapshot).mergeSort fun a b => !(b.name < a.name)
  if entries.isEmpty then .ok none
  else
    (entries.mapM fun e : SnapshotEntry => do
      let text ← decodeText (← (e.content.read e.origin).mapError Flaw.refused)
      return (⟨e.origin.toUri disk.workingPath, e.origin, text, true⟩ : Source)).map some

/-! ### References -/

/-- The path that a reference names on the disk, if it is a file URI or an absolute path. -/
def diskPath? (reference : String) : Except UriError (Option Path) := do
  if "file:".toList.isPrefixOf reference.toList then return some (← Path.ofUri reference)
  let path := Path.ofText reference
  return if path.isAbsolute then some path else none

/-- The name that a reference has in the workspace: backslashes count as slashes, and slashes at the
ends do not count. -/
def workspaceName (reference : String) : String :=
  let path := Path.ofText <|
    String.ofList (reference.toList.map fun c => if c = '\\' then '/' else c)
  let bare := path.text.toList.dropWhile (· = '/')
  String.ofList (bare.reverse.dropWhile (· = '/')).reverse

/-- The sources of a library on the disk. -/
def onDisk (disk : Disk) (path : Path) : Except Flaw (Option (List Source)) := do
  match ← (disk.directory? path).mapError Flaw.refused with
  | some top => return some (← ofDirectory disk path top)
  | none =>
    match ← (disk.file? path).mapError Flaw.refused with
    | none => return none
    | some content =>
      if path.suffix = archiveSuffix then return some (← ofArchive disk path content)
      else return none

/-- The sources of a library in the workspace. -/
def inWorkspace (disk : Disk) (snapshot : Snapshot) (name : String) :
    Except Flaw (Option (List Source)) :=
  match Snapshot.find? snapshot name with
  | some e =>
    if archiveSuffix.toList.isSuffixOf name.toList then
      (ofArchive disk e.origin e.content).map some
    else ofSnapshot disk snapshot name
  | none => ofSnapshot disk snapshot name

/-- The sources that a reference stands for, nothing if it leads nowhere, or the flaw of what it
leads to. -/
def find (disk : Disk) (snapshot : Snapshot) (reference : String) :
    Except UriError (Except Flaw (Option (List Source))) := do
  match ← diskPath? reference with
  | some path => return onDisk disk path
  | none => return inWorkspace disk snapshot (workspaceName reference)

/-! ### Loading -/

/-- The record of a reference that was looked up. -/
def record (reference : String) : Except Flaw (Option (List Source)) → LogRecord
  | .error flaw => .ofPart "library" Level.warning
    ("Could not load library '" ++ reference ++ "': " ++ flaw.message)
  | .ok none => .ofPart "library" Level.warning ("Library '" ++ reference ++ "' not found")
  | .ok (some sources) => .ofPart "library" Level.info
    ("Loaded " ++ toString sources.length ++ " library sources from '" ++ reference ++ "'")

/-- The failure that looking a reference up is for all of them, if it is one. -/
def fatalOf : Except Flaw (Option (List Source)) → Option Cause
  | .error flaw => flaw.fatal?
  | .ok _ => none

/-- The sources among what was found for a reference. -/
def sources : Except Flaw (Option (List Source)) → List Source
  | .ok (some found) => found
  | _ => []

/-- The sources of several references, and what there is to say. -/
def loadFrom (disk : Disk) (snapshot : Snapshot) :
    List String → Except Refusal (List Source) × List LogRecord
  | [] => (.ok [], [])
  | reference :: references =>
    match find disk snapshot reference with
    | .error e => (.error (.uri e), [])
    | .ok found =>
      match fatalOf found with
      | some cause => (.error (.archive cause), [])
      | none =>
        let (others, records) := loadFrom disk snapshot references
        (others.map (sources found ++ ·), record reference found :: records)

/-- The sources of several references for a workspace with the given roots. -/
def load (disk : Disk) (references : List String) (roots : List Path) :
    Except Refusal (List Source) × List LogRecord :=
  if references.isEmpty then (.ok [], [])
  else
    match Snapshot.take disk roots with
    | (.error e, records) => (.error (.lookup e), records)
    | (.ok snapshot, records) =>
      let (found, more) := loadFrom disk snapshot references
      (found, records ++ more)

end Npl.Library
