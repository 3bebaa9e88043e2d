import Npl.Disk.Basic

/-!
# Changing the disk

Entries are written and deleted by their paths from the working directory. Missing directories on
the way are made. A file is written to where a link leads; a link is deleted itself.

## Main definitions

* `Disk.start` — a disk that holds nothing but the working directory.
* `Disk.write`, `Disk.delete` — changing entries.
-/

namespace Npl.Disk

/-- Puts an entry at a location. -/
def set (d : Disk) (l : Location) (node : Node) : Disk :=
  { d with entries := d.entries.filter (·.1 ≠ l) ++ [(l, node)] }

/-- Makes a directory at a location, unless something is there. -/
def ensureDirectory (d : Disk) (l : Location) : Disk :=
  if (d.node? l).isSome then d else d.set l .directory

/-- A disk with an empty working directory. -/
def start (workingDirectory : Location) : Disk :=
  (List.range workingDirectory.length).foldl
    (fun d n => d.ensureDirectory (workingDirectory.take (n + 1))) ⟨workingDirectory, []⟩

/-- Makes the directories that names lead through from a location, and answers where they lead. -/
def makeWay (d : Disk) (here : Location) : List String → Disk × Location
  | [] => (d, here)
  | name :: names =>
    if name = ".." then d.makeWay here.dropLast names
    else
      match d.lookUp linkLimit here [name] with
      | .ok there => d.makeWay there names
      | .error _ =>
        (d.set (here ++ [name]) .directory).makeWay (here ++ [name]) names

/-- The location that a file is written to, given the one that its path names: where the link leads
that is there, if one is there. -/
def writeLocation (d : Disk) : Nat → Location → Location
  | 0, l => l
  | depth + 1, l =>
    match d.node? l with
    | some (.link target) =>
      let path := Path.ofText target
      match d.lookUp linkLimit (origin l.dropLast path) path.parts.dropLast with
      | .ok there => d.writeLocation depth (there ++ path.parts.getLast?.toList)
      | .error _ => l
    | _ => l

/-- Writes an entry. -/
def write (d : Disk) (p : Path) (node : Node) : Disk :=
  let (d, parent) := d.makeWay (origin d.workingDirectory p) p.parts.dropLast
  let l := parent ++ p.parts.getLast?.toList
  match node with
  | .file _ => d.set (d.writeLocation d.linkCount l) node
  | .directory => d.ensureDirectory l
  | .closed | .link _ => d.set l node

/-- Deletes an entry and everything below it. A path that leads nowhere changes nothing. -/
def delete (d : Disk) (p : Path) : Disk :=
  match d.lookUp linkLimit (origin d.workingDirectory p) p.parts.dropLast with
  | .ok parent =>
    let l := parent ++ p.parts.getLast?.toList
    { d with entries := d.entries.filter fun (other, _) => !l.isPrefixOf other }
  | .error _ => d

end Npl.Disk
