import Npl.Proofs.Project.Reload
import Npl.Proofs.Server.Quiet
import Npl.Proofs.Server.Upkeep
import Npl.Proofs.Workspace.Discovery

/-!
# Other workspace folders

When the folders of the workspace change, the server loads its project from the new ones. Whatever
it was told before, and whatever it held and showed then, nothing of that is left: it ends up where
a server ends up that is new and connects with these folders.

That needs a report on what is found below the folders. Without one, the last report stays as it
was, and so does the board. The board also stays as it was if the report cannot be shown, because a
message has no position in the protocol.

## Main results

* `Server.coincide_of_foldersChanged` — behind a change of the folders, the server and a new one
  coincide, and the editor shows nothing else.
* `Server.coincide_of_foldersChanged_trapped` — servers that do not, as the report cannot be shown.
-/

namespace Npl

open Project.Action (Ends)

namespace Project

variable {e : Surroundings} {p q : Project} {references : List String}

/-- Other folders are loaded, unless what that needs cannot be gathered. -/
theorem loaded_of_changeFolders (hd : e.disk.Sane) (hp : p.Orderly e) {roots : List String}
    (hroots : roots ≠ []) {x : Except Refusal Unit}
    (h : Ends (changeFolders e roots references) p x q) :
    (∃ r, (gather e.disk (rootsOf roots) references).1 = .error r) ∨
      Loaded e roots references q := by
  unfold changeFolders at h
  rw [Action.ends_log_bind_iff, if_neg (by simpa using hroots)] at h
  have hlogged := Logged.log p
    (.ofPart "lsp" Level.info ("Workspace folders changed: " ++ Text.quoteList roots))
  exact (loaded_of_load hd (hp.of_same hlogged.documents) h).imp_left fun ⟨r, hr, _⟩ => ⟨r, hr⟩

/-- The folders that a connection starts with are loaded, unless there are none, or what that needs
cannot be gathered. -/
theorem loaded_of_connect (hd : e.disk.Sane) (hp : p.Orderly e) {folders : List String}
    {options : Json} {trace? : Option String} {x : Except Refusal Unit}
    (h : Ends (connect e folders options trace? references) p x q) :
    Logged p q ∨ connectRoots folders options trace? ≠ [] ∧
      Loaded e (connectRoots folders options trace?) references q := by
  rcases connect_cases h with ⟨-, hlogged⟩ | ⟨mid, hne, hlogged, hload⟩
  · exact .inl hlogged
  · rcases loaded_of_load hd (hp.of_same hlogged.documents) hload with ⟨-, -, -, hlogged'⟩ | hloaded
    · exact .inl (hlogged.trans hlogged')
    · exact .inr ⟨hne, hloaded⟩

end Project

namespace Server

variable {τ : Type} [Add τ] [Sub τ] [LT τ] [DecidableLT τ] [OfNat τ 0]

/-- **Changing the folders leaves no residue.** A server is told anything, and then that the folders
are others. Another server with the same library references is new and connects with the folders
that the first one has then. If a document is found there that belongs to the workspace, and
compiling gives a report, both hold the same documents, roots and libraries, nothing waits, and they
have this report. Their boards are the same if the report can be shown, and it can be if the sources
are not too long for the protocol. For what is not on the board, the editor shows nothing. -/
theorem coincide_of_foldersChanged {e : Surroundings} (hd : e.disk.Sane) (client : Client)
    (topLevel : Nat) (forwarding : Bool) (quiet : τ) (connection : Connection) (quiet' : τ)
    (libraries : List String) (inputs : List (Input τ)) (added removed : List String)
    (folders : List String) (options : Json) (trace? : Option String) {documents : List Source}
    {report : Report} :
    let s := run e (start (.start client topLevel forwarding) quiet libraries) inputs
    let t := follow e s (.request (.foldersChanged added removed))
    let new := follow e (start connection quiet' libraries)
      (.request (.connect folders options trace?))
    Project.connectRoots folders options trace? = changeRoots s.roots added removed →
      new.project.candidates e = .ok documents → documents ≠ [] →
        (e.compiler (new.project.together documents)).result = .ok (.finished report) →
          Project.Coincide e report new.project t.project ∧
            (e.compiler = .standard →
              (∀ d ∈ new.project.together documents, d.content.length < 2 ^ 31) →
                new.project.Showable e) ∧
            ∀ uri ∉ t.project.display.board.shown.keys,
              t.project.display.connection.view uri = [] := by
  intro s t new hroots hdocuments hne hreport
  have hlibraries : s.libraries = libraries := (settings_run e _ inputs).2
  obtain ⟨roots, hnew⟩ := connect_snd e folders options trace? (start connection quiet' libraries)
  obtain ⟨x, hconnected⟩ : ∃ x, Ends (Project.connect e folders options trace? libraries)
      (.start connection) x new.project := by
    simp only [new, follow, handle, hnew]
    exact ⟨_, Prod.ext rfl rfl⟩
  obtain ⟨y, hchanged⟩ : ∃ y, Ends (Project.changeFolders e (changeRoots s.roots added removed)
      libraries) s.project y t.project := by
    simp only [t, follow, handle, changeFolders_snd, hlibraries]
    exact ⟨_, Prod.ext rfl rfl⟩
  -- A new server that loaded nothing has no documents.
  obtain ⟨hsome, hloaded⟩ := (Project.loaded_of_connect hd (Project.orderly_start connection).1
    hconnected).resolve_left fun hlogged => by
      rw [hlogged.alike.candidates] at hdocuments
      exact hne (Except.ok.inj hdocuments).symm
  rw [hroots] at hsome hloaded
  have hreloaded : Project.Loaded e (changeRoots s.roots added removed) libraries t.project := by
    rcases Project.loaded_of_changeFolders hd (orderly_run hd _ quiet libraries inputs) hsome
      hchanged with ⟨r, hr⟩ | hreloaded
    · obtain ⟨found, hgathered, -⟩ := hloaded.gathered
      simp [hgathered] at hr
    · exact hreloaded
  have hcoincide := hloaded.coincide hreloaded hdocuments hne hreport
  refine ⟨hcoincide, fun hstandard hlength => ?_, fun uri huri => ?_⟩
  · rw [hstandard] at hreport
    exact showable_of_short hcoincide.last (Except.ok.inj hreport) hlength
  · have hfaithful := (upkeep_faithful client e).follow s (.request (.foldersChanged added removed))
      (faithful_run e client topLevel forwarding quiet libraries inputs)
    exact Project.view_of_not_shown hfaithful huri

/-- A file in one directory that uses what is not there, and a file in another one. -/
def apartFolders : Surroundings where
  compiler := .standard
  disk := {
    workingDirectory := []
    entries := [
      (["one"], .directory),
      (["one", "a.npl"], .file (.bytes (Text.Utf8.encode "use b.C".toList))),
      (["two"], .directory),
      (["two", "b.npl"], .file (.bytes (Text.Utf8.encode "package b\nuse c".toList)))] }

/-- The workspace is the first directory, and the document in it is being edited. -/
def editedApart : List (Input Nat) := [
  .request (.connect ["file:///one"] .null none),
  .request (.edited "file:///one/a.npl" ["package a\nuse b"])]

/-- The server that is told so. -/
def editingApart : Server Nat :=
  run apartFolders (start (.start .plain 30 false) 3 []) editedApart

/-- The server behind the change from the first directory to the second one. -/
def movedApart : Server Nat :=
  follow apartFolders editingApart (.request (.foldersChanged ["file:///two"] ["file:///one"]))

/-- A new server that connects with the second directory. -/
def newApart : Server Nat :=
  follow apartFolders (start (.start .plain 30 false) 0 [])
    (.request (.connect ["file:///two"] .null none))

/-- The file in the second directory. -/
def usesNothing : Source :=
  ⟨"file:///two/b.npl", ⟨.single, ["two", "b.npl"]⟩, "package b\nuse c", false⟩

/-- The report on it. -/
def unresolvedApart : Report :=
  .failure [⟨.unresolvedImport, .error, "Unresolved import 'c'", usesNothing.location, 2, 1,
    "use c"⟩] []

/-- Before the change there is another document, an edit waits, and an error is shown. None of that
is left. -/
theorem coincide_of_foldersChanged_apart :
    apartFolders.disk.Sane ∧
    editingApart.project.documents.sources.keys = ["file:///one/a.npl"] ∧
    editingApart.project.documents.dirty.keys = ["file:///one/a.npl"] ∧
    editingApart.project.display.connection.view "file:///one/a.npl" ≠ [] ∧
    changeRoots editingApart.roots ["file:///two"] ["file:///one"] = ["file:///two"] ∧
    newApart.project.candidates apartFolders = .ok [usesNothing] ∧ [usesNothing] ≠ [] ∧
    (apartFolders.compiler (newApart.project.together [usesNothing])).result =
      .ok (.finished unresolvedApart) ∧
    Project.Coincide apartFolders unresolvedApart newApart.project movedApart.project ∧
    newApart.project.Showable apartFolders ∧
    movedApart.project.display.connection.view "file:///one/a.npl" = [] := by
  have hd : apartFolders.disk.Sane := ⟨by decide, by simp [apartFolders], by decide⟩
  -- What comes out of a run is evaluated once for each run.
  have hediting : editingApart.project.documents.sources.keys = ["file:///one/a.npl"] ∧
      editingApart.project.documents.dirty.keys = ["file:///one/a.npl"] ∧
      editingApart.project.display.connection.view "file:///one/a.npl" ≠ [] ∧
      changeRoots editingApart.roots ["file:///two"] ["file:///one"] = ["file:///two"] := by
    decide +kernel
  have hnew : (newApart.project.candidates apartFolders).toOption = some [usesNothing] ∧
      (apartFolders.compiler (newApart.project.together [usesNothing])).result.toOption =
        some (.finished unresolvedApart) ∧
      (∀ d ∈ newApart.project.together [usesNothing], d.content.length < 2 ^ 31) ∧
      "file:///one/a.npl" ∉ newApart.project.display.board.shown.keys := by
    decide +kernel
  obtain ⟨hkeys, hdirty, hshown, hchange⟩ := hediting
  obtain ⟨hdocuments, hreport, hlength, haway⟩ := hnew
  rw [toOption_eq_some_iff] at hdocuments hreport
  have hconnect : Project.connectRoots ["file:///two"] .null none = ["file:///two"] := by decide
  obtain ⟨hcoincide, hshowable, hview⟩ := coincide_of_foldersChanged hd .plain 30 false 3
    (.start .plain 30 false) 0 [] editedApart ["file:///two"] ["file:///one"] ["file:///two"] .null
    none (hconnect.trans hchange.symm) hdocuments (by decide) hreport
  have hboard : movedApart.project.display.board = newApart.project.display.board :=
    hcoincide.board (hshowable rfl hlength)
  exact ⟨hd, hkeys, hdirty, hshown, hchange, hdocuments, by decide, hreport, hcoincide,
    hshowable rfl hlength, hview _ (hboard ▸ haway)⟩

end Server

/-! ### A report that cannot be shown -/

/-- A directory with one file, which consists of line feeds. -/
def pitfall (n : Nat) : Surroundings where
  compiler := .standard
  disk := {
    workingDirectory := []
    entries := [
      (["one"], .directory),
      (["one", "b.npl"], .file (.bytes (Text.Utf8.encode (lineFeeds n).toList)))] }

/-- The file. -/
def pit (n : Nat) : Source :=
  ⟨"file:///one/b.npl", ⟨.single, ["one", "b.npl"]⟩, lineFeeds n, false⟩

theorem sane_pitfall (n : Nat) : (pitfall n).disk.Sane := by
  have hnames : ∀ w ∈ ["one", "b.npl"], Path.IsName w ∧ NullFree w := by decide
  refine ⟨fun entry hentry w hw => hnames w ?_, by simp [pitfall], by simp [pitfall]⟩
  simp only [pitfall, List.mem_cons, List.not_mem_nil, or_false] at hentry
  rcases hentry with rfl | rfl
  · exact List.mem_cons.2 (.inl (List.mem_singleton.1 hw))
  · exact hw

/-- Its entry, seen from the directory. -/
def pitEntry (n : Nat) : List String × Node :=
  (["b.npl"], .file (.bytes (Text.Utf8.encode (lineFeeds n).toList)))

/-- The file is all that is found. -/
theorem discover_pitfall (n : Nat) :
    (discover (pitfall n).disk [⟨.single, ["one"]⟩]).1 = .ok [pit n] := by
  have htop : (pitfall n).disk.directory? ⟨.single, ["one"]⟩ = .ok (some ["one"]) := rfl
  have hlist : (pitfall n).disk.list ⟨.single, ["one"]⟩ ["one"] = .ok [pitEntry n] := by
    have hbelow : (pitfall n).disk.entriesBelow ["one"] = [pitEntry n] := by
      simp [Disk.entriesBelow, pitfall, Disk.namesBelow?, pitEntry]
    rw [Disk.list, hbelow]
    rfl
  have hentry : (discoverEntry (pitfall n).disk ⟨.single, ["one"]⟩ (pitEntry n)).1 = some (pit n) := by
    have hfile : (pitfall n).disk.file? ⟨.single, ["one", "b.npl"]⟩ =
        .ok (some (.bytes (Text.Utf8.encode (lineFeeds n).toList))) := rfl
    have huri : "file:///one/b.npl" = (⟨.single, ["one", "b.npl"]⟩ : Path).toUri ⟨.single, []⟩ := rfl
    refine (@discoverEntry_eq_some_iff _ _ [] _ _ _).2 ⟨by simp, _, _, hfile, rfl, ?_⟩
    rw [unifyNewlines_lineFeeds, String.ofList_toList, pit, huri]
    rfl
  have hsources : sourceEntries [pitEntry n] = [pitEntry n] := rfl
  have hroot : discoverRoot (pitfall n).disk ⟨.single, ["one"]⟩ =
      .ok ([pit n], (discoverEntry (pitfall n).disk ⟨.single, ["one"]⟩ (pitEntry n)).2 ++ []) := by
    simp only [discoverRoot, htop, hlist, bind, Except.bind, hsources]
    simp [hentry]
  rw [discover, discoverFrom, hroot]
  rfl

theorem rootsOf_one : Project.rootsOf ["file:///one"] = [⟨.single, ["one"]⟩] := by
  decide +kernel

theorem gather_pitfall (n : Nat) :
    (gather (pitfall n).disk (Project.rootsOf ["file:///one"]) []).1 = .ok ([pit n], []) := by
  rw [rootsOf_one]
  exact Project.gather_eq_ok_iff.2 ⟨discover_pitfall n, rfl⟩

/-- Loading the directory leaves what is shown for the file, and there is a report on it. -/
theorem load_pitfall {n : Nat} (h : 2 ^ 31 ≤ n) {p q : Project}
    (hkeys : ∀ key ∈ p.documents.sources.keys, key = "file:///one/b.npl")
    {x : Except Refusal Unit} (hends : Ends (Project.load (pitfall n) ["file:///one"] []) p x q) :
    q.display.board = p.display.board ∧
      Project.Compiles (pitfall n) q [pit n] (.finished (.failure [missingPackage (pit n)] [])) := by
  have hinside : Workspace.contains ⟨Project.rootsOf ["file:///one"]⟩ (pitfall n).disk
      (pit n).location = .ok true := by
    rw [rootsOf_one]
    rfl
  exact Project.withheld_of_load (sane_pitfall n) (gather_pitfall n) hkeys hinside
    isBlank_of_mem_lineFeeds (h.trans (count_lineFeeds n).ge) hends

namespace Server

/-- The file is being edited without any folders, and has a syntax error. -/
def heedless (n : Nat) : Server Nat :=
  run (pitfall n) (start (.start .plain 30 false) 0 []) [
    .request (.connect [] .null none),
    .request (.opened "file:///one/b.npl" "use")]

/-- The server behind a change of the folders to the directory. -/
def trapped (n : Nat) : Server Nat :=
  follow (pitfall n) (heedless n) (.request (.foldersChanged ["file:///one"] []))

/-- A new server that connects with the directory. -/
def newTrapped (n : Nat) : Server Nat :=
  follow (pitfall n) (start (.start .plain 30 false) 0 [])
    (.request (.connect ["file:///one"] .null none))

/-- The server behind the change shows what it showed before. -/
theorem board_trapped {n : Nat} (h : 2 ^ 31 ≤ n) (hroots : (heedless n).roots = [])
    (hlibraries : (heedless n).libraries = [])
    (hkeys : (heedless n).project.documents.sources.keys = ["file:///one/b.npl"]) :
    (trapped n).project.display.board = (heedless n).project.display.board := by
  have hchange : changeRoots [] ["file:///one"] [] = ["file:///one"] := by decide
  obtain ⟨x, hchanged⟩ : ∃ x, Ends (Project.changeFolders (pitfall n) ["file:///one"] [])
      (heedless n).project x (trapped n).project := by
    simp only [trapped, follow, handle, changeFolders_snd, hlibraries, hroots, hchange]
    exact ⟨_, Prod.ext rfl rfl⟩
  unfold Project.changeFolders at hchanged
  rw [Project.Action.ends_log_bind_iff, if_neg (by simp)] at hchanged
  exact (load_pitfall h (by simp [hkeys]) hchanged).1.trans (Project.Logged.log _ _).board

/-- The new server shows nothing. -/
theorem board_newTrapped {n : Nat} (h : 2 ^ 31 ≤ n) :
    (newTrapped n).project.display.board = .empty ∧ Project.Compiles (pitfall n)
      (newTrapped n).project [pit n] (.finished (.failure [missingPackage (pit n)] [])) := by
  have hconnect : Project.connectRoots ["file:///one"] .null none = ["file:///one"] := by decide
  obtain ⟨roots, hnew⟩ := connect_snd (pitfall n) ["file:///one"] .null none
    (start (.start .plain 30 false) (0 : Nat) [])
  obtain ⟨x, hconnected⟩ : ∃ x, Ends (Project.connect (pitfall n) ["file:///one"] .null none [])
      (.start (.start .plain 30 false)) x (newTrapped n).project := by
    simp only [newTrapped, follow, handle, hnew]
    exact ⟨_, Prod.ext rfl rfl⟩
  rcases Project.connect_cases hconnected with ⟨hnone, -⟩ | ⟨mid, -, hlogged, hload⟩
  · simp [hconnect] at hnone
  rw [hconnect] at hload
  have hkeys : mid.documents.sources.keys = [] := by
    rw [hlogged.documents]
    rfl
  obtain ⟨hboard, hcompiles⟩ := load_pitfall h (by simp [hkeys]) hload
  exact ⟨hboard.trans hlogged.board, hcompiles⟩

/-- The servers do not coincide if the file has more line feeds than the protocol can count. There is
a report on it, but the first server shows the error that was there before, and the new one nothing. -/
theorem coincide_of_foldersChanged_trapped :
    (pitfall (2 ^ 31)).disk.Sane ∧
    changeRoots (heedless (2 ^ 31)).roots ["file:///one"] [] = ["file:///one"] ∧
    (newTrapped (2 ^ 31)).project.candidates (pitfall (2 ^ 31)) = .ok [pit (2 ^ 31)] ∧
    (∃ report, ((pitfall (2 ^ 31)).compiler
      ((newTrapped (2 ^ 31)).project.together [pit (2 ^ 31)])).result = .ok (.finished report)) ∧
    (trapped (2 ^ 31)).project.display.board.shown.keys = ["file:///one/b.npl"] ∧
    (newTrapped (2 ^ 31)).project.display.board.shown.keys = [] := by
  have hheedless : (heedless (2 ^ 31)).roots = [] ∧ (heedless (2 ^ 31)).libraries = [] ∧
      (heedless (2 ^ 31)).project.documents.sources.keys = ["file:///one/b.npl"] ∧
      (heedless (2 ^ 31)).project.display.board.shown.keys = ["file:///one/b.npl"] := by
    decide +kernel
  obtain ⟨hroots, hlibraries, hkeys, hshown⟩ := hheedless
  have hboard := board_trapped (le_refl (2 ^ 31)) hroots hlibraries hkeys
  obtain ⟨hboard', hcompiles⟩ := board_newTrapped (le_refl (2 ^ 31))
  refine ⟨sane_pitfall _, ?_, hcompiles.inScope, ⟨_, hcompiles.result⟩, ?_, ?_⟩
  · rw [hroots]
    decide
  · rw [hboard, hshown]
  · rw [hboard']
    rfl

end Server

end Npl
