import Mathlib.Logic.Function.Basic
import Npl.Proofs.Project.Canonical
import Npl.Proofs.Project.Intake
import Npl.Proofs.Server.Run

/-!
# The texts of documents

The server holds the text of a document that the editor sent last, whatever happens in between, with
two exceptions. A text is passed over if its document is outside the workspace, or if the name is no
name of a source file. The latter can be said of a document that was found on the disk: a search for
source files also finds those whose name is the suffix alone. And whenever the workspace is loaded
from the disk, when the connection starts or when its folders change, all texts are replaced by
those on the disk. Open documents are no exception to that.

An account is kept of the texts that the editor sent, and of what the server holds instead.

## Main definitions

* `Server.intake` — what comes to the documents with an input.
* `Account` — the last texts that the editor sent, and what is held instead.
* `Server.account` — the account of a run.

## Main results

* `Server.sheds_of_follow` — with an input nothing else comes to the documents.
* `Server.content_of_run` — the text of a document is what the account says.
-/

namespace Npl

open Project.Action (Ends Respects)

namespace Project

variable {e : Surroundings} {p q : Project}

/-! ### What comes to the documents -/

/-- What comes with other folders. -/
def foldersIntake (e : Surroundings) (roots references : List String) : Intake :=
  if roots.isEmpty then .nothing else filesIntake e roots references

/-- What comes from the disk is canonical. -/
theorem canonical_of_foldersIntake (hd : e.disk.Sane) {roots references : List String}
    {found : List Source} (h : foldersIntake e roots references = .files found) :
    ∀ s ∈ found, s.Canonical e.disk.workingPath := by
  unfold foldersIntake filesIntake at h
  split at h
  · simp at h
  · split at h
    · simp at h
    next sources libraries hgathered =>
      obtain rfl := Intake.files.inj h
      exact fun s hs => canonical_of_mem_discover hd (fun root hroot => normal_of_mem_rootsOf hroot)
        (gather_eq_ok_iff.1 hgathered).1 hs

/-- The editor sends no files. -/
theorem textIntake_ne_files {uri content : String} {found : List Source} :
    textIntake e p uri content ≠ .files found := by
  unfold textIntake
  split <;> simp

theorem sheds_applyTrace (text : String) : Respects Sheds (applyTrace text) :=
  .bind (.answer _) fun _ => .modifies fun _ => .of_sources rfl

theorem sheds_closeDocument (uri : String) : Respects Sheds (closeDocument e uri) := by
  refine .bind (sheds_close uri) fun gone => ?_
  split
  · exact sheds_log _
  · exact .pure _

theorem sheds_followFiles (changes : List (FileChange × String)) :
    Respects Sheds (followFiles e changes) := by
  refine .forM (fun (change, uri) => ?_) changes
  simp only
  split
  · exact .bind (sheds_log _) fun _ => sheds_remove uri
  · exact .pure _

theorem sheds_attempt (key : String) : Respects Sheds (attempt e key) :=
  .tryCatch sheds_recompile.discard fun _ => sheds_log _

theorem sheds_of_changeFolders {roots references : List String} {x : Except Refusal Unit}
    (h : Ends (changeFolders e roots references) p x q) :
    Sheds (p.receive e (foldersIntake e roots references)) q := by
  unfold changeFolders at h
  rw [Action.ends_log_bind_iff] at h
  have hlogged := Logged.log p
    (.ofPart "lsp" Level.info ("Workspace folders changed: " ++ Text.quoteList roots))
  refine hlogged.sheds_receive ?_
  unfold foldersIntake
  split at h
  · next hnone =>
      rw [if_pos hnone]
      exact sheds_setRoots [] _ _ _ h
  · next hsome =>
      rw [if_neg hsome]
      exact sheds_of_load h

theorem sheds_of_connect {folders : List String} {options : Json} {trace? : Option String}
    {references : List String} {x : Except Refusal Unit}
    (h : Ends (connect e folders options trace? references) p x q) :
    Sheds (p.receive e (foldersIntake e (connectRoots folders options trace?) references)) q := by
  unfold foldersIntake
  rcases connect_cases h with ⟨hnone, hlogged⟩ | ⟨mid, hsome, hlogged, hload⟩
  · rw [if_pos (List.isEmpty_iff.2 hnone)]
    exact hlogged.sheds
  · rw [if_neg fun hnone => hsome (List.isEmpty_iff.1 hnone)]
    exact hlogged.sheds_receive (sheds_of_load hload)

end Project

namespace Server

variable {τ : Type} {e : Surroundings}

/-- What comes to the documents with an input. -/
def intake (e : Surroundings) (s : Server τ) : Input τ → Project.Intake
  | .request (.connect folders options trace?) =>
    Project.foldersIntake e (Project.connectRoots folders options trace?) s.libraries
  | .request (.opened uri text) => Project.textIntake e s.project uri text
  | .request (.edited uri texts) =>
    match texts.getLast? with
    | none => .nothing
    | some text => Project.textIntake e s.project uri text
  | .request (.foldersChanged added removed) =>
    Project.foldersIntake e (changeRoots s.roots added removed) s.libraries
  | .request (.setTrace _) | .request .shutdown | .request (.closed _) | .request (.saved _)
  | .request (.filesChanged _) | .passed _ => .nothing

section

variable [Add τ] [LT τ] [DecidableLT τ] [OfNat τ 0]

/-- Behind an edit there is its last text, as far as it is taken over. -/
theorem sheds_of_edit (uri : String) (texts : List String) (s : Server τ) :
    Project.Sheds (s.project.receive e (intake e s (.request (.edited uri texts))))
      (edit e uri texts s).2.project := by
  cases htext : texts.getLast? with
  | none =>
      simp only [intake, edit, htext]
      exact refl_of Project.Sheds s.project
  | some text =>
      simp only [intake, htext]
      obtain ⟨x, p, hp⟩ : ∃ x p, Ends (Project.update e uri text false) s.project x p := ⟨_, _, rfl⟩
      have hupdate := Project.sheds_of_update hp
      by_cases hx : x = .ok true
      · subst hx
        rw [edit_of_taken_over htext hp]
        split
        · exact trans_of Project.Sheds hupdate (logged_of_compileLater uri _).sheds
        · exact trans_of Project.Sheds hupdate (Project.sheds_recompile _ _ _ (Prod.ext rfl rfl))
      · rw [edit_of_passed_over htext hp hx]
        exact hupdate

/-- Nothing but what comes with an input is new in the documents behind it. -/
theorem sheds_of_follow [Sub τ] (e : Surroundings) (s : Server τ) (i : Input τ) :
    Project.Sheds (s.project.receive e (intake e s i)) (follow e s i).project := by
  cases i with
  | request r =>
      cases r with
      | connect folders options trace? =>
          obtain ⟨roots, hs⟩ := connect_snd e folders options trace? s
          simp only [follow, handle, hs]
          exact Project.sheds_of_connect (Prod.ext rfl rfl)
      | setTrace value =>
          simp only [follow, handle_setTrace]
          exact Respects.bind (Project.sheds_log _) (fun _ => Project.sheds_applyTrace value) _ _ _
            (Prod.ext rfl rfl)
      | shutdown => exact Project.sheds_log _ _ _ _ (Prod.ext rfl rfl)
      | opened uri text =>
          simp only [follow, handle_opened]
          obtain ⟨x, hx, -⟩ := Project.Action.ends_discard_iff.1
            (rfl : Ends (discard (Project.update e uri text true)) s.project _ _)
          exact Project.sheds_of_update hx
      | edited uri texts => exact sheds_of_edit uri texts s
      | closed uri =>
          simp only [follow, handle_closed]
          exact Project.sheds_closeDocument uri _ _ _ (Prod.ext rfl rfl)
      | saved uri => exact refl_of Project.Sheds s.project
      | filesChanged changes =>
          simp only [follow, handle_filesChanged]
          exact Project.sheds_followFiles changes _ _ _ (Prod.ext rfl rfl)
      | foldersChanged added removed =>
          simp only [follow, handle, changeFolders_snd]
          exact Project.sheds_of_changeFolders (Prod.ext rfl rfl)
  | passed time =>
      simp only [follow, advance_snd]
      exact Respects.forM (fun task : Task τ Unit => Project.sheds_attempt task.key) _ _ _ _
        (Prod.ext rfl rfl)

end

end Server

/-! ### The account -/

/-- The last text that the editor sent for each document, and what is held instead of it, if that is
something else. -/
structure Account where
  sent : String → Option String
  instead : String → Option String

namespace Account

/-- Nothing was sent yet. -/
def empty : Account :=
  ⟨fun _ => none, fun _ => none⟩

/-- The account after something came to the documents. Instead of a text that is passed over, the
text that was there is held, and instead of all texts those of the files that take their place. -/
def note (wd : Path) (d : Documents) (a : Account) : Project.Intake → Account
  | .nothing => a
  | .text path content taken =>
    let key := path.toUri wd
    let before := if taken then none else (d.sources.get? key).map Source.content
    ⟨Function.update a.sent key (some content), Function.update a.instead key before⟩
  | .files found =>
    { a with instead := (Keyed.ofList (found.map fun s => (s.uri, s.content))).get? }

/-- Each document of which the editor sent the text has the text that the account says. -/
def Holds (a : Account) (d : Documents) : Prop :=
  ∀ key s text, d.sources.get? key = some s → a.sent key = some text →
    s.content = (a.instead key).getD text

theorem Holds.sheds {a : Account} {p q : Project} (h : a.Holds p.documents)
    (hsheds : Project.Sheds p q) : a.Holds q.documents :=
  fun key s text hs => h key s text (hsheds key s hs)

/-- The account goes on holding when something comes to the documents. -/
theorem Holds.apply {disk : Disk} (hd : disk.Sane) {a : Account} {d : Documents} (h : a.Holds d)
    {i : Project.Intake} (hfound : ∀ found, i = .files found →
      ∀ s ∈ found, s.Canonical disk.workingPath) :
    (a.note disk.workingPath d i).Holds (i.apply disk.workingPath d) := by
  cases i with
  | nothing => exact h
  | text path content taken =>
      intro key s text hs hsent
      by_cases hkey : path.toUri disk.workingPath = key
      · subst hkey
        simp only [note, Function.update_self] at hsent ⊢
        cases taken with
        | false =>
            change d.sources.get? _ = some s at hs
            simp [hs]
        | true =>
            simp only [Project.Intake.apply, Documents.put, Documents.touch, Keyed.get?_set,
              if_true] at hs
            obtain rfl := Option.some.inj hs
            exact Option.some.inj hsent
      · simp only [note, Function.update_of_ne (Ne.symm hkey)] at hsent ⊢
        cases taken with
        | false => exact h key s text hs hsent
        | true =>
            simp only [Project.Intake.apply, Documents.put, Documents.touch, Keyed.get?_set,
              if_neg hkey] at hs
            exact h key s text hs hsent
  | files found =>
      intro key s text hs _
      have hcontent :
          ((d.replaceAll disk.workingPath found).1.sources.get? key).map Source.content =
            (Keyed.ofList (found.map fun s => (s.uri, s.content))).get? key :=
        Documents.Canonical.content_putAll hd (hfound found rfl) rfl
      have hs : (d.replaceAll disk.workingPath found).1.sources.get? key = some s := hs
      rw [hs, Option.map_some] at hcontent
      simp only [note, ← hcontent, Option.getD_some]

end Account

namespace Server

variable {τ : Type} {e : Surroundings}

/-- What comes from the disk is canonical. -/
theorem canonical_of_intake (hd : e.disk.Sane) {s : Server τ} {i : Input τ} {found : List Source}
    (h : intake e s i = .files found) : ∀ f ∈ found, f.Canonical e.disk.workingPath := by
  unfold intake at h
  split at h
  · exact Project.canonical_of_foldersIntake hd h
  · exact absurd h Project.textIntake_ne_files
  · split at h
    · simp at h
    · exact absurd h Project.textIntake_ne_files
  · exact Project.canonical_of_foldersIntake hd h
  all_goals simp at h

variable [Add τ] [Sub τ] [LT τ] [DecidableLT τ] [OfNat τ 0]

/-- The account of a run that goes on from a server and an account. -/
def account (e : Surroundings) (s : Server τ) (a : Account) : List (Input τ) → Account
  | [] => a
  | i :: is =>
    account e (follow e s i) (a.note e.disk.workingPath s.project.documents (intake e s i)) is

/-- The account goes on holding in a run. -/
theorem holds_run (hd : e.disk.Sane) {s : Server τ} {a : Account}
    (h : a.Holds s.project.documents) (inputs : List (Input τ)) :
    (account e s a inputs).Holds (run e s inputs).project.documents := by
  induction inputs generalizing s a with
  | nil => exact h
  | cons i inputs ih =>
      have happly := h.apply hd (i := intake e s i) fun _ hfound => canonical_of_intake hd hfound
      have hreceive : (a.note e.disk.workingPath s.project.documents (intake e s i)).Holds
          (s.project.receive e (intake e s i)).documents := happly
      exact ih (hreceive.sheds (sheds_of_follow e s i))

/-- **Texts stay as the editor sent them until the workspace is loaded.** In any run of the server,
a document of which the editor sent a text has the last text that it sent, unless the account says
otherwise. That is so in two cases only: the text was passed over, and the document, if it is still
there, has the text that it had then; or the workspace was loaded since, and the document has the
text that was found on the disk. -/
theorem content_of_run (hd : e.disk.Sane) (connection : Connection) (quiet : τ)
    (libraries : List String) (inputs : List (Input τ)) {key text : String} {s : Source} :
    let server := run e (start connection quiet libraries) inputs
    let a := account e (start connection quiet libraries) .empty inputs
    server.project.documents.sources.get? key = some s → a.sent key = some text →
      s.content = (a.instead key).getD text := by
  intro server a hs hsent
  have hstart : Account.empty.Holds (start connection quiet libraries).project.documents :=
    fun _ _ _ _ hsent => absurd hsent (by simp [Account.empty])
  exact holds_run hd hstart inputs key s text hs hsent

/-- A disk with an empty source file in one of two directories. -/
def twoFolders : Surroundings where
  compiler := .standard
  disk := {
    workingDirectory := []
    entries := [
      (["one"], .directory),
      (["one", "a.npl"], .file (.bytes [])),
      (["two"], .directory)] }

/-- The workspace is the first directory, the file in it is edited and not saved, and then the
second directory is added to the workspace. -/
def folderAdded : List (Input Nat) := [
  .request (.connect ["file:///one"] .null none),
  .request (.opened "file:///one/a.npl" "package a"),
  .request (.foldersChanged ["file:///two"] [])]

/-- The server that is told so. -/
def reloaded : Server Nat :=
  run twoFolders (start (.start .plain 30 false) 0 []) folderAdded

/-- The account of that. -/
def reloadedAccount : Account :=
  account twoFolders (start (.start .plain 30 false) (0 : Nat) []) .empty folderAdded

/-- The document as it is on the disk. -/
def saved : Source :=
  ⟨"file:///one/a.npl", ⟨.single, ["one", "a.npl"]⟩, "", false⟩

/-- The document is open, and its text is the one on the disk, not the one that the editor sent. -/
theorem content_of_run_reloaded :
    twoFolders.disk.Sane ∧
    reloaded.project.documents.sources.get? saved.uri = some saved ∧
    reloadedAccount.sent saved.uri = some "package a" ∧
    reloadedAccount.instead saved.uri = some "" ∧
    saved.content = (reloadedAccount.instead saved.uri).getD "package a" ∧
    saved.content ≠ "package a" := by
  have hd : twoFolders.disk.Sane := ⟨by decide, by simp [twoFolders], by decide⟩
  have hs : reloaded.project.documents.sources.get? saved.uri = some saved := by decide +kernel
  obtain ⟨hsent, hinstead⟩ : reloadedAccount.sent saved.uri = some "package a" ∧
      reloadedAccount.instead saved.uri = some "" := by decide +kernel
  exact ⟨hd, hs, hsent, hinstead, content_of_run hd _ _ _ _ hs hsent, by decide⟩

end Server

end Npl
