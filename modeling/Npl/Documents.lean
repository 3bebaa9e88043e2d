import Npl.Keyed
import Npl.Path.Source
import Npl.Path.Uri
import Npl.Program.Unit

/-!
# Documents

The server keeps the text of every document it knows under the document's canonical URI. It also
keeps which documents have changed since they were last compiled. Every change is given a number of
its own, greater than all before, so that a list of changed documents can be struck off later
without losing a change made in between.

## Main definitions

* `Documents` — the documents and what has changed.
* `Documents.update`, `Documents.remove`, `Documents.replaceAll` — changes.
* `Documents.strike`, `Documents.strikeUnchanged` — striking off what was compiled.
-/

namespace Npl

/-- The documents by their canonical URIs, the numbers of the latest changes that were not compiled
yet, and the number of changes so far. -/
structure Documents where
  sources : Keyed Source
  dirty : Keyed Nat
  changes : Nat
deriving DecidableEq, Repr

namespace Documents

/-- No documents, and no changes. -/
def empty : Documents :=
  ⟨.empty, .empty, 0⟩

/-! ### Changes -/

/-- Notes a change of the document with the given key. -/
def touch (d : Documents) (key : String) : Documents :=
  { d with dirty := d.dirty.set key (d.changes + 1), changes := d.changes + 1 }

/-- Puts a source under a key, and notes the change. -/
def put (d : Documents) (key : String) (s : Source) : Documents :=
  { d with sources := d.sources.set key { s with uri := key } }.touch key

/-- Takes over the full text of a document. A URI that names no source file changes nothing, and the
answer tells. -/
def update (d : Documents) (workingDirectory : Path) (uri content : String) : Documents × Bool :=
  match Path.ofUri uri with
  | .error _ => (d, false)
  | .ok path =>
    if path.isSource then
      let key := path.toUri workingDirectory
      (d.put key ⟨key, path, content, false⟩, true)
    else (d, false)

/-- Forgets the document with the given key. That counts as a change even if there was none. -/
def removeKey (d : Documents) (key : String) : Documents × Option Source :=
  ({ d with sources := d.sources.erase key }.touch key, d.sources.get? key)

/-- Forgets a document, and answers what was known of it. -/
def remove (d : Documents) (workingDirectory : Path) (uri : String) :
    Except UriError (Documents × Option Source) := do
  return d.removeKey (← canonicalUri workingDirectory uri)

/-- Adds sources one after the other, up to the first one whose URI makes no sense. -/
def putAll (d : Documents) (workingDirectory : Path) :
    List Source → Documents × Except UriError Unit
  | [] => (d, .ok ())
  | s :: ss =>
    match canonicalUri workingDirectory s.uri with
    | .error e => (d, .error e)
    | .ok key => (d.put key s).putAll workingDirectory ss

/-- Forgets everything, changes included, and takes over the given sources, all of them as changed.
The answer is the list of keys that are known no longer. -/
def replaceAll (d : Documents) (workingDirectory : Path) (sources : List Source) :
    Documents × Except UriError (List String) :=
  let (new, result) := { d with sources := .empty, dirty := .empty }.putAll workingDirectory sources
  (new, result.map fun _ => d.sources.keys.filter fun key => !new.sources.contains key)

/-! ### Striking off -/

/-- Strikes keys off the changed documents. -/
def strike (d : Documents) (keys : List String) : Documents :=
  { d with dirty := keys.foldl Keyed.erase d.dirty }

/-- Strikes those keys off that have not changed since the given numbers were noted. -/
def strikeUnchanged (d : Documents) (noted : Keyed Nat) : Documents :=
  { d with dirty := noted.entries.foldl (fun dirty (key, n) =>
      if dirty.get? key = some n then dirty.erase key else dirty) d.dirty }

/-! ### Looking up -/

/-- All documents in order. -/
def all (d : Documents) : List Source :=
  d.sources.values

/-- The document that a URI means. -/
def get? (d : Documents) (workingDirectory : Path) (uri : String) :
    Except UriError (Option Source) := do
  return d.sources.get? (← canonicalUri workingDirectory uri)

/-- Whether the document that a URI means is known. -/
def contains (d : Documents) (workingDirectory : Path) (uri : String) : Except UriError Bool := do
  return d.sources.contains (← canonicalUri workingDirectory uri)

end Documents

end Npl
