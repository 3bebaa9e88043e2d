import Npl.Cause
import Npl.Path.Basic
import Npl.Text.Quoted

/-!
# The disk

The disk is a tree of named entries: directories, files and links. An entry is addressed by its
location, the names on the way from the top. A path may lead through links and through `..`, so two
questions are asked about a path: where it really leads, and what is found there.

Both follow the path name by name, and differ in four ways. The real path takes `..` as the way back
from whatever came before, while a look-up insists that it comes behind a directory. For the real
path the end of a link's target does not matter; for a look-up a slash there insists on a directory.
The real path follows links as long as none leads back to itself, a look-up follows at most
`linkLimit`. And what gets in the way of a look-up can be more than a missing entry: a directory that
may not be entered and a name or path that is too long refuse it, and whoever asked has to deal with
that. A real path then leads nowhere.

What the system refuses for other reasons, such as a broken device, is left out, and so is the bound
on the length of a real path.

## Main definitions

* `Disk` — the entries and the working directory.
* `Disk.realPath`, `Disk.find?` — the two questions.
* `LookupError` — why a look-up is refused.
* `Disk.list` — everything below a directory, in order.
-/

namespace Npl

/-! ### Entries -/

/-- What reading an archive or one of its members gives. -/
inductive ArchiveReading (α : Type)
  | done (a : α)
  /-- The bytes are not what the format asks for. -/
  | damaged (text : String)
  /-- Reading them breaks down otherwise: they are encrypted, say, or packed in an unknown way. -/
  | unsupported (cause : Cause)
deriving DecidableEq, Repr

/-- A member of an archive. -/
structure ArchiveMember where
  name : String
  reading : ArchiveReading (List UInt8)
deriving DecidableEq, Repr

/-- What a file holds. -/
inductive Content
  /-- Bytes that are no archive. -/
  | bytes (bs : List UInt8)
  /-- Bytes, and what they are as an archive. -/
  | archive (bs : List UInt8) (members : ArchiveReading (List ArchiveMember))
  /-- Something that may not be read. -/
  | locked
deriving DecidableEq, Repr

/-- An entry of the disk. -/
inductive Node
  | directory
  /-- A directory that may be neither entered nor listed. What is in it is not part of the disk. -/
  | closed
  | file (content : Content)
  /-- A link to the path written in it. -/
  | link (target : String)
deriving DecidableEq, Repr

/-- Whether an entry is a directory. -/
def Node.isDirectory : Node → Bool
  | directory | closed => true
  | file _ | link _ => false

/-- The names on the way from the top to an entry. -/
abbrev Location : Type := List String

/-- The entries of a disk by their locations, and the working directory. -/
structure Disk where
  workingDirectory : Location
  entries : List (Location × Node)
deriving DecidableEq, Repr

/-- Where a path leads. -/
inductive Destination
  | at (location : Location)
  /-- To no entry. -/
  | nowhere
  /-- To a name with a null character, which no entry can have. -/
  | nullCharacter
deriving DecidableEq, Repr

/-! ### What refuses a look-up -/

/-- Why a path cannot be looked up, or a file not be read. -/
inductive LookupError
  /-- It lies in a directory that may not be entered, or may not be read itself. -/
  | denied (path : Path)
  /-- It is too long, or one of its names is. -/
  | tooLong (path : Path)
deriving DecidableEq, Repr

/-- An error as it is shown. -/
def LookupError.cause : LookupError → Cause
  | denied path => ⟨"PermissionError", "[Errno 13] Permission denied: " ++ Text.quote path.text⟩
  | tooLong path => ⟨"OSError", "[Errno 36] File name too long: " ++ Text.quote path.text⟩

/-- Why a look-up gets no further. -/
inductive Obstacle
  /-- There is no such entry, it lies in no directory, or too many links lead there. -/
  | missing
  | denied
  | tooLong
deriving DecidableEq, Repr

/-- The bytes of a file at a path. -/
def Content.read (path : Path) : Content → Except LookupError (List UInt8)
  | bytes bs | archive bs _ => .ok bs
  | locked => .error (.denied path)

namespace Disk

/-- The number of bytes that a name may have. -/
def nameLimit : Nat := 255

/-- The number of bytes that a path may have. -/
def pathLimit : Nat := 4095

/-- The number of links that a look-up follows. -/
def linkLimit : Nat := 40

/-- The entry at a location. The top is a directory. -/
def node? (d : Disk) (l : Location) : Option Node :=
  if l = [] then some .directory else (d.entries.find? (·.1 = l)).map Prod.snd

/-- The number of links on the disk. -/
def linkCount (d : Disk) : Nat :=
  d.entries.countP fun (_, node) => node matches .link _

/-- The working directory as a path. -/
def workingPath (d : Disk) : Path :=
  ⟨.single, d.workingDirectory⟩

/-- The location from which a path starts, seen from another one. -/
def origin (base : Location) (p : Path) : Location :=
  if p.isAbsolute then [] else base

/-- The steps that a link's target asks for. Between two slashes and behind the last one there is an
empty step. -/
def steps (target : String) : List String :=
  (Text.pieces '/' target.toList).map String.ofList

/-! ### Real paths -/

/-- Follows steps from a location. An empty one and a dot lead nowhere else, and two dots lead back.
Where a link leads, seen from the location that it is in, is what `jump` tells. -/
def walk (d : Disk) (jump : Location → String → Destination) (here : Location) :
    List String → Destination
  | [] => .at here
  | name :: names =>
    if name = "" ∨ name = "." then d.walk jump here names
    else if name = ".." then d.walk jump here.dropLast names
    else if name.toList.contains '\x00' then .nullCharacter
    else
      match d.node? (here ++ [name]) with
      | none => .nowhere
      | some (.link target) =>
        match jump here target with
        | .at there => d.walk jump there names
        | .nowhere => .nowhere
        | .nullCharacter => .nullCharacter
      | some _ => d.walk jump (here ++ [name]) names

/-- Follows steps from a location. At most `depth` links are followed one inside the other. -/
def follow (d : Disk) : Nat → Location → List String → Destination
  | 0 => d.walk fun _ _ => .nowhere
  | depth + 1 => d.walk fun here target =>
    d.follow depth (origin here (.ofText target)) (steps target)

/-- Where a path really leads. More links than there are on the disk can be followed one inside the
other only if one leads back to itself, and then there is no end of it. -/
def realPath (d : Disk) (p : Path) : Destination :=
  d.follow (d.linkCount + linkLimit) (origin d.workingDirectory p) p.parts

/-! ### Look-ups -/

/-- Looks steps up from a location. Each insists on a directory, and each but the empty one on entering
it. What comes behind a link, `jump` tells: it is given the location that the link is in,
its target and the steps that are left. -/
def seek (d : Disk) (jump : Location → String → List String → Except Obstacle Location)
    (here : Location) : List String → Except Obstacle Location
  | [] => .ok here
  | name :: names =>
    if !((d.node? here).any Node.isDirectory) then .error .missing
    else if name = "" then d.seek jump here names
    else if d.node? here = some .closed then .error .denied
    else if name = "." then d.seek jump here names
    else if name = ".." then d.seek jump here.dropLast names
    else if nameLimit < name.utf8ByteSize then .error .tooLong
    else
      match d.node? (here ++ [name]) with
      | none => .error .missing
      | some (.link target) => jump here target names
      | some _ => d.seek jump (here ++ [name]) names

/-- Looks steps up from a location, and follows at most `links` links on the way. -/
def lookUp (d : Disk) : Nat → Location → List String → Except Obstacle Location
  | 0 => d.seek fun _ _ _ => .error .missing
  | links + 1 => d.seek fun here target names =>
    d.lookUp links (origin here (.ofText target)) (steps target ++ names)

/-- Whether a path is too long for the system. -/
def exceeds (p : Path) : Bool :=
  pathLimit < p.text.utf8ByteSize

/-- The location and the entry that a path leads to, all links followed. No entry has a name with a
null character, and the system is not asked for one. -/
def find? (d : Disk) (p : Path) : Except LookupError (Option (Location × Node)) :=
  if p.parts.any (·.toList.contains '\x00') then .ok none
  else if exceeds p then .error (.tooLong p)
  else
    match d.lookUp linkLimit (origin d.workingDirectory p) p.parts with
    | .ok l => .ok ((d.node? l).map (l, ·))
    | .error .missing => .ok none
    | .error .denied => .error (.denied p)
    | .error .tooLong => .error (.tooLong p)

/-- Whether a path leads to an entry. -/
def exists? (d : Disk) (p : Path) : Except LookupError Bool :=
  (d.find? p).map Option.isSome

/-- The location of the directory that was found, if one was. -/
def directoryOf : Option (Location × Node) → Option Location
  | some (l, node) => if node.isDirectory then some l else none
  | none => none

/-- What the file holds that was found, if one was. -/
def contentOf : Option (Location × Node) → Option Content
  | some (_, .file content) => some content
  | _ => none

/-- The location that a path leads to, if there is a directory. -/
def directory? (d : Disk) (p : Path) : Except LookupError (Option Location) :=
  (d.find? p).map directoryOf

/-- What the file holds that a path leads to. -/
def file? (d : Disk) (p : Path) : Except LookupError (Option Content) :=
  (d.find? p).map contentOf

/-! ### Listing -/

/-- The names that lead from a location to an entry below it. -/
def namesBelow? (top l : Location) : Option (List String) :=
  if top <+: l ∧ top ≠ l then some (l.drop top.length) else none

/-- The entries below a location, each with the names that lead to it, ordered by these names. Links
are entries like others; what they lead to is not below the location. -/
def entriesBelow (d : Disk) (top : Location) : List (List String × Node) :=
  (d.entries.filterMap fun (l, node) => (namesBelow? top l).map (·, node)).mergeSort
    fun a b => Path.partsLe a.1 b.1

/-- Whether an entry below a path is a directory whose own path is too long. -/
def outgrows (p : Path) (entry : List String × Node) : Bool :=
  entry.2.isDirectory && exceeds (p.below entry.1)

/-- The entries below the directory that a path leads to. Each directory is listed by its path, so
one whose path is too long refuses all of it. Which of several is met first depends on the order in
which a system lists them; here that is the order of their names. -/
def list (d : Disk) (p : Path) (top : Location) : Except LookupError (List (List String × Node)) :=
  match (d.entriesBelow top).find? (outgrows p) with
  | some (names, _) => .error (.tooLong (p.below names))
  | none => .ok (d.entriesBelow top)

end Disk

end Npl
