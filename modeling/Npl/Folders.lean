import Npl.Json.Violation
import Npl.Session.Log
import Npl.Text.Blank

/-!
# Workspace folders

An editor names the folders of its workspace when it connects. Besides the standard list it may send
a list of its own among its options, and if that list holds a folder whose URI is not blank, it is
used instead.

## Main definitions

* `Folder`, `FolderOptions` — the folders that options can name.
* `FolderOptions.read` — options read from JSON, or what is wrong with them.
* `chooseFolders` — the folder URIs to be used.
-/

namespace Npl

/-- A folder of the workspace. -/
structure Folder where
  uri : String
  name : String
deriving DecidableEq, Repr

/-- The folders named by options, if they name any. -/
structure FolderOptions where
  folders? : Option (List Folder)
deriving DecidableEq, Repr

/-! ### Reading -/

/-- Reads the URI of a folder, which must be there, and its name, which need not. -/
def Folder.read (place : List PlaceStep) : Json → Except (List Violation) Folder
  | .object fields =>
    let uri :=
      match Json.field? fields "uri" with
      | some j => j.asText (place ++ [PlaceStep.field "uri"])
      | none => .error [⟨place ++ [PlaceStep.field "uri"], .missing⟩]
    let name :=
      match Json.field? fields "name" with
      | some j => j.asText (place ++ [PlaceStep.field "name"])
      | none => .ok ""
    match uri, name with
    | .ok uri, .ok name => .ok ⟨uri, name⟩
    | .error vs, .ok _ => .error vs
    | .ok _, .error ws => .error ws
    | .error vs, .error ws => .error (vs ++ ws)
  | _ => .error [⟨place, .notObject⟩]

namespace FolderOptions

/-- The spellings of the field that holds the folders; the first one that is there counts. -/
def fieldNames : List String :=
  ["effectiveWorkspaceFolders", "effective_workspace_folders"]

/-- Reads options. All fields but the one with the folders are ignored. -/
def read : Json → Except (List Violation) FolderOptions
  | .object fields =>
    match fieldNames.findSome? fun name => (Json.field? fields name).map (name, ·) with
    | none | some (_, .null) => .ok ⟨none⟩
    | some (name, j) =>
      (j.asList [PlaceStep.field name] Folder.read).map fun folders => ⟨some folders⟩
  | _ => .error [⟨[], .notObject⟩]

/-- The URIs of the folders that options name, without blank ones. -/
def uris (o : FolderOptions) : List String :=
  ((o.folders?.getD []).map Folder.uri).filter fun uri => Text.trim uri.toList ≠ []

end FolderOptions

/-! ### Choosing -/

/-- The folder URIs that options name, and what there is to say about them. Options that cannot be
read name none. -/
def optionUris : Json → List String × List LogRecord
  | .null => ([], [])
  | options =>
    match FolderOptions.read options with
    | .ok o => (o.uris, [])
    | .error vs =>
      ([], [.ofPart "lsp" Level.warning ("Error parsing effectiveWorkspaceFolders: " ++
        "; ".intercalate (vs.map Violation.line))])

/-- The folder URIs to be used, and what there is to say about the choice: those that the options
name, and if they name none, the standard ones. -/
def chooseFolders (options : Json) (standard : List String) : List String × List LogRecord :=
  match optionUris options with
  | ([], records) =>
    let record : LogRecord :=
      if standard.isEmpty then
        .ofPart "lsp" Level.warning ("No workspace folders found in either " ++
          "effectiveWorkspaceFolders or standard workspaceFolders")
      else
        .ofPart "lsp" Level.info
          ("Found " ++ toString standard.length ++ " standard workspace folders")
    (standard, records ++ [record])
  | (uris, records) =>
    (uris, records ++ [.ofPart "lsp" Level.info
      ("Using " ++ toString uris.length ++ " URIs from effectiveWorkspaceFolders")])

end Npl
