import Npl.Proofs.Documents.Keys
import Npl.Proofs.Project.Reload
import Npl.Proofs.Project.Stuck
import Npl.Proofs.Workspace.Discovery

/-!
# Editing what was found

A document that was found on the disk can be edited if its file is not called `.npl`, and if its path
really leads below a root. Discovery does not ask for that. It goes by how the name of a file ends,
where editing wants a suffix, and `.npl` alone has none; and it takes a link that lies below a root,
wherever that leads, where editing wants what it leads to below a root. So an edit of a document that
is called `.npl` is passed over, and the text on the disk is compiled on. An edit of a document
behind a link that leads out of the workspace drops the document.

## Main definitions

* `Source.edited`, `Project.edited` — a document with another text, and a project with it.
* `Project.Edited` — the document was edited and compiled.

## Main results

* `Project.updating_of_comes` — the ways in which the text of a document is taken over or not.
* `Project.contains_iff_liesBelow` — what belongs to a workspace with roots.
* `Project.edited_iff_of_load` — which of the documents that were found can be edited.
-/

namespace Npl

/-! ### Names of source files -/

/-- A path whose name ends like that of a source has the suffix of source files, unless that is the
whole name. -/
theorem Path.isSource_iff_of_ends {path : Path}
    (h : sourceSuffix.toList <:+ path.name.toList) :
    path.isSource = true ↔ path.name ≠ sourceSuffix := by
  obtain ⟨front, hfront⟩ := h
  have htail : afterDot path.name.toList = ['n', 'p', 'l'] := by
    rw [← hfront]
    simp [afterDot, sourceSuffix]
  have hlength : path.name.toList.length = front.length + 4 := by
    rw [← hfront]
    simp [sourceSuffix]
  have hwhole : path.name = sourceSuffix ↔ front = [] := by
    rw [← String.toList_inj, ← hfront, List.append_left_eq_self]
  rw [isSource, decide_eq_true_iff, suffix, suffixOf]
  simp only [htail, hlength, ne_eq, hwhole]
  by_cases hnil : front = []
  · simp [hnil, sourceSuffix]
  · have hlong : 0 < front.length := List.length_pos_iff.2 hnil
    simp [hnil, sourceSuffix]

/-! ### Below the roots -/

namespace Workspace

variable {disk : Disk} {w : Workspace} {path : Path}

/-- A location that no root holds lies below none of them. -/
theorem not_prefix_of_holds {l : Location} {roots : List Path}
    (h : holds disk l roots = .ok false) :
    ∀ root ∈ roots, ∀ top, disk.realPath root = .at top → ¬ top <+: l := by
  induction roots with
  | nil => simp
  | cons first roots ih =>
      rw [holds] at h
      intro root hroot top htop
      split at h
      · next top' htop' =>
          split at h
          · simp at h
          next hpass =>
          rcases List.mem_cons.1 hroot with rfl | hroot
          · obtain rfl := Destination.at.inj (htop'.symm.trans htop)
            exact hpass
          · exact ih h root hroot top htop
      · next hnowhere =>
          rcases List.mem_cons.1 hroot with rfl | hroot
          · simp [hnowhere] at htop
          · exact ih h root hroot top htop
      · simp at h

/-- Seen from the working directory, a path belongs to the same workspaces. -/
theorem contains_join (hd : disk.Sane) (ht : disk.Tree)
    (hhome : disk.node? disk.workingDirectory = some .directory) :
    w.contains disk (disk.workingPath.join path) = w.contains disk path := by
  rw [contains, contains, Disk.realPath_join hd ht hhome]

end Workspace

/-! ### Documents -/

/-- The document with another text, at its path as seen from a working directory. -/
def Source.edited (s : Source) (wd : Path) (content : String) : Source :=
  ⟨s.uri, wd.join s.location, content, false⟩

/-- Adding sources under their own URIs brings these sources and no others. -/
theorem Documents.mem_all_putAll {d : Documents} {wd : Path} {ss : List Source}
    (hss : ∀ s ∈ ss, canonicalUri wd s.uri = .ok s.uri) {t : Source}
    (ht : t ∈ (d.putAll wd ss).1.all) : t ∈ d.all ∨ t ∈ ss := by
  induction ss generalizing d with
  | nil => exact .inl ht
  | cons s ss ih =>
      rw [putAll, hss s List.mem_cons_self] at ht
      rcases ih (fun s' hs' => hss s' (List.mem_cons_of_mem _ hs')) ht with hput | hlater
      · obtain ⟨entry, hentry, rfl⟩ := List.mem_map.1 hput
        rcases Keyed.mem_of_mem_set hentry with rfl | hold
        · exact .inr List.mem_cons_self
        · exact .inl (List.mem_map_of_mem hold)
      · exact .inr (List.mem_cons_of_mem _ hlater)

namespace Project

open Npl.Project.Action (Ends)

variable {e : Surroundings} {p q : Project} {ms : List Moment} {uris references : List String}

/-- With roots that have no null characters, what belongs to a workspace is what leads below one of
them. -/
theorem contains_iff_liesBelow {disk : Disk} (hd : disk.Sane) (hsome : rootsOf uris ≠ [])
    (hroots : ∀ root ∈ rootsOf uris, root.NullFree) {path : Path} :
    Workspace.contains ⟨rootsOf uris⟩ disk path = .ok true ↔ LiesBelow disk uris path := by
  refine ⟨fun h => (liesBelow_of_contains h).resolve_left hsome, ?_⟩
  rintro ⟨uri, huri, root, top, l, hof, htop, hl, hprefix⟩
  have hroot : root ∈ rootsOf uris :=
    List.mem_filterMap.2 ⟨uri, huri, toOption_eq_some_iff.2 hof⟩
  obtain ⟨b, hb⟩ := Workspace.exists_holds hd l hroots
  rw [Workspace.contains, if_neg (by simpa using hsome), hl]
  cases b with
  | true => exact hb
  | false => exact absurd hprefix (Workspace.not_prefix_of_holds hb root hroot top htop)

/-! ### Taking over a text -/

/-- The project with another text for a document. -/
def edited (e : Surroundings) (p : Project) (d : Source) (content : String) : Project :=
  { p with documents := p.documents.put d.uri (d.edited e.disk.workingPath content) }

/-- The ways in which the text of a document at a path is taken over or not. -/
inductive Updating (e : Surroundings) (p : Project) (uri content : String) (path : Path) :
    List Moment → Except Refusal Bool → Project → Prop
  /-- The path is not that of a source file. -/
  | other (hsource : path.isSource = false) : Updating e p uri content path [] (.ok false) p
  /-- It is refused to tell whether the document belongs to the workspace. -/
  | refused {r : Refusal} (hsource : path.isSource = true)
      (hrefused : p.workspace.contains e.disk path = .error r) :
      Updating e p uri content path [] (.error r) p
  /-- The document does not belong to the workspace, and is dropped. -/
  | outside {ms : List Moment} {y : Except Refusal Unit} {q : Project}
      (hsource : path.isSource = true) (hout : p.workspace.contains e.disk path = .ok false)
      (hdrop : Ends (dropOutside e uri) p y q) :
      Updating e p uri content path ms (y.map fun _ => false) q
  /-- The text is taken over, and the project is compiled. -/
  | taken {ms : List Moment} {y : Except Refusal (Option Outcome)} {q : Project}
      (hsource : path.isSource = true) (hinside : p.workspace.contains e.disk path = .ok true)
      (hcomes : (Watched.recompile e).Comes
        { p with documents := (p.documents.update e.disk.workingPath uri content).1 } ms y q) :
      Updating e p uri content path (.changed :: ms) (y.map fun _ => true) q

/-- A watched action behind which a value is known, whatever it came to itself. -/
theorem Watched.exists_of_comes_ignoring_bind {α β : Type} {w : Watched α} {b : β}
    {x : Except Refusal β} (h : (Watched.ignoring w >>= fun _ => pure b).Comes p ms x q) :
    ∃ y, w.Comes p ms y q ∧ x = y.map fun _ => b := by
  obtain ⟨y', hdiscard, rfl⟩ := Action.ends_bind_pure_iff.1 h.ends
  obtain ⟨y, hends, rfl⟩ := Action.ends_discard_iff.1 hdiscard
  refine ⟨y, ⟨hends, ?_⟩, by cases y <;> rfl⟩
  rw [← h.told]
  change w.told p = w.told p ++ _
  split <;> exact (List.append_nil _).symm

/-- Taking over the text of a document comes to one of these. -/
theorem updating_of_comes {uri content : String} {path : Path} (hpath : Path.ofUri uri = .ok path)
    {x : Except Refusal Bool} (h : (Watched.update e uri content true).Comes p ms x q) :
    Updating e p uri content path ms x q := by
  unfold Watched.update at h
  simp only [hpath] at h
  split at h
  · next hsource =>
      obtain ⟨rfl, rfl⟩ := Action.ends_pure_iff.1 h.ends
      obtain rfl : [] = ms := h.told
      exact .other (by simpa using hsource)
  next hsource =>
  have hsource : path.isSource = true := by simpa using hsource
  have hcomes := Watched.comes_get_bind_iff.1 h
  rcases Watched.comes_silent_bind_iff.1 hcomes with
    ⟨r, hr, rfl, rfl⟩ | ⟨inside, mid, hinside, hrest⟩
  · obtain ⟨hr, rfl⟩ := Action.ends_answer_iff.1 hr
    exact .refused hsource hr.symm
  obtain ⟨hinside, rfl⟩ := Action.ends_answer_iff.1 hinside
  split at hrest
  · next htrue =>
      subst htrue
      rcases Watched.comes_changing_bind_iff.1 hrest with
        ⟨r, hr, -⟩ | ⟨u, put, rest, hput, hrest, rfl⟩
      · exact absurd ((Action.ends_iff_of_eq rfl).1 hr).1 (by simp)
      obtain ⟨-, rfl⟩ := (Action.ends_iff_of_eq rfl).1 hput
      obtain ⟨y, hrecompile, rfl⟩ := Watched.exists_of_comes_ignoring_bind hrest
      exact .taken hsource hinside.symm hrecompile
  · next hfalse =>
      obtain rfl : inside = false := by simpa using hfalse
      obtain ⟨y, hdrop, rfl⟩ := Action.ends_bind_pure_iff.1 hrest.ends
      exact .outside hsource hinside.symm (Watched.act_dropOutside e uri ▸ hdrop)

/-! ### What is compiled -/

/-- If something waits and documents belong to the workspace, the compiler is given them. -/
theorem asked_of_recompile {x : Except Refusal (Option Outcome)}
    (h : (Watched.recompile e).Comes p ms x q) (hopen : p.isSettled = false)
    {documents : List Source} (hdocuments : p.candidates e = .ok documents) (hne : documents ≠ []) :
    .asked documents (p.librariesBeside documents) ∈ ms := by
  unfold Watched.recompile at h
  have hcomes := Watched.comes_get_bind_iff.1 h
  rw [if_neg (by simp [hopen])] at hcomes
  obtain ⟨before, hattempt, rfl⟩ := Watched.comes_attempting_iff.1 hcomes
  refine List.mem_append_left _ ?_
  rcases Watched.comes_silent_bind_iff.1 hattempt with ⟨r, hr, -⟩ | ⟨found, mid, hfound, hbehind⟩
  · have hrefused := (Action.ends_answer_iff.1 hr).1
    simp [hdocuments] at hrefused
  obtain ⟨hsame, rfl⟩ := Action.ends_answer_iff.1 hfound
  obtain rfl := Except.ok.inj (hdocuments.symm.trans hsame.symm)
  rw [if_neg (by simpa using hne)] at hbehind
  rcases Watched.comes_silent_bind_iff.1 hbehind with ⟨r, hr, -⟩ | ⟨u, said, -, hrun⟩
  · exact absurd (Action.ends_log_iff.1 hr).1 (by simp)
  rcases Watched.comes_bind_iff.1 hrun with ⟨r, hr, -⟩ | ⟨result, ran, ms', ms'', hresult, -, rfl⟩
  · simp [← hr.told, Watched.asking]
  · simp [← hresult.told, Watched.asking]

/-- Unless compiling what waits is refused, it can be told which documents belong to the
workspace. -/
theorem exists_candidates {x : Except Refusal (Option Outcome)} (h : Ends (recompile e) p x q)
    (hopen : p.isSettled = false) (hx : ∀ r, x ≠ .error r) :
    ∃ documents, p.candidates e = .ok documents := by
  cases recompilation_of_ends h with
  | settled hsettled => simp [hopen] at hsettled
  | @refused r => exact absurd rfl (hx r)
  | empty _ hempty => exact ⟨_, hempty⟩
  | broken _ hdocuments | fault _ hdocuments | finished _ hdocuments => exact ⟨_, hdocuments⟩

/-- The document has another text under the same key and no other entry, and it was compiled with
it. -/
structure Edited (e : Surroundings) (p : Project) (d : Source) (content : String)
    (ms : List Moment) (x : Except Refusal Bool) (q : Project) : Prop where
  answer : x = .ok true
  keys : q.documents.sources.keys = p.documents.sources.keys
  entry : q.documents.sources.get? d.uri = some (d.edited e.disk.workingPath content)
  asked : ∃ documents libraries, .asked documents libraries ∈ ms ∧
    d.edited e.disk.workingPath content ∈ documents

/-- If a document of the workspace is given another text, and compiling that is not refused, it is
edited. -/
theorem edited_of_recompile (hd : e.disk.Sane) (ht : e.disk.Tree)
    (hhome : e.disk.node? e.disk.workingDirectory = some .directory) {d : Source} {content : String}
    (hkey : d.uri ∈ p.documents.sources.keys)
    (hinside : p.workspace.contains e.disk d.location = .ok true)
    {y : Except Refusal (Option Outcome)}
    (h : (Watched.recompile e).Comes (p.edited e d content) ms y q) (hy : ∀ r, y ≠ .error r) :
    Edited e p d content (.changed :: ms) (y.map fun _ => true) q := by
  have hends : Ends (recompile e) (p.edited e d content) y q := Watched.act_recompile e ▸ h.ends
  have hsources : q.documents.sources =
      p.documents.sources.set d.uri (d.edited e.disk.workingPath content) :=
    (alike_of_recompile hends).sources
  have hopen : (p.edited e d content).isSettled = false := by
    simp [isSettled, edited, Documents.put, dirty_touch]
  obtain ⟨documents, hdocuments⟩ := exists_candidates hends hopen hy
  have hamong : d.edited e.disk.workingPath content ∈ documents := by
    obtain ⟨-, rfl⟩ := filterM_eq_ok_iff.1 hdocuments
    refine List.mem_filter.2 ⟨?_, isYes_eq_true_iff.2 ?_⟩
    · have hfound : (p.edited e d content).documents.sources.get? d.uri =
          some (d.edited e.disk.workingPath content) :=
        (Keyed.get?_set _ _ _ _).trans (if_pos rfl)
      exact List.mem_map_of_mem (Keyed.mem_of_get? hfound)
    · exact (Workspace.contains_join hd ht hhome).trans hinside
  have hasked := asked_of_recompile h hopen hdocuments (List.ne_nil_of_mem hamong)
  refine ⟨?_, ?_, ?_, documents, _, List.mem_cons_of_mem _ hasked, hamong⟩
  · cases y with
    | ok outcome => rfl
    | error r => exact absurd rfl (hy r)
  · rw [hsources, Keyed.keys_set, if_pos hkey]
  · rw [hsources, Keyed.get?_set, if_pos rfl]

/-- Dropping a document that is known takes out the entry of its key. -/
theorem sources_of_dropOutside {uri : String}
    (hkey : canonicalUri e.disk.workingPath uri = .ok uri)
    (hknown : uri ∈ p.documents.sources.keys) {x : Except Refusal Unit}
    (h : Ends (dropOutside e uri) p x q) :
    q.documents.sources = p.documents.sources.erase uri := by
  unfold dropOutside at h
  rw [Action.ends_get_bind_iff, Documents.contains_of_canonicalUri hkey,
    Keyed.contains_iff.2 hknown] at h
  have hdrop := (Action.ends_bind_iff_of_eq (p := p) rfl).1 h
  rw [if_pos rfl] at hdrop
  unfold say at hdrop
  rw [Action.ends_log_bind_iff] at hdrop
  obtain ⟨forgotten, cleared, -, hforgotten, -, hsame, hdiscard⟩ :=
    dropped_of_canonicalUri hkey hdrop
  obtain ⟨y, hrecompile, -⟩ := Action.ends_discard_iff.1 hdiscard
  rw [(alike_of_recompile hrecompile).sources, hsame]
  exact congrArg Documents.sources hforgotten

/-! ### What loading brought -/

namespace Loaded

variable {d : Source}

/-- A document that was loaded is one of the sources that were found. -/
theorem exists_mem_discover (hd : e.disk.Sane) (hp : Loaded e uris references p)
    (hmem : d ∈ p.documents.all) :
    ∃ sources, (discover e.disk (rootsOf uris)).1 = .ok sources ∧ d ∈ sources := by
  obtain ⟨sources, hgathered, heq⟩ := hp.gathered
  have hsources := (gather_eq_ok_iff.1 hgathered).1
  rw [Documents.all, heq] at hmem
  have hold : d ∉ Documents.empty.all := by
    simp [Documents.empty, Documents.all, Keyed.empty, Keyed.values]
  have hfound := (Documents.mem_all_putAll
    (fun s hs => (canonical_of_found hd hsources s hs).eq hd) hmem).resolve_left hold
  exact ⟨sources, hsources, hfound⟩

/-- A document that was loaded was found below a root. -/
theorem foundBelow (hd : e.disk.Sane) (ht : e.disk.Tree) (hp : Loaded e uris references p)
    (hmem : d ∈ p.documents.all) : ∃ root ∈ rootsOf uris, FoundBelow e.disk root d := by
  obtain ⟨sources, hsources, hfound⟩ := hp.exists_mem_discover hd hmem
  exact (mem_discover_iff hd ht hsources).1 hfound

/-- A loaded document has the canonical URI of its location, which is its key. -/
theorem canonical (hp : Loaded e uris references p) (hmem : d ∈ p.documents.all) :
    d.Canonical e.disk.workingPath ∧ d.uri ∈ p.documents.sources.keys := by
  obtain ⟨entry, hentry, rfl⟩ := List.mem_map.1 hmem
  refine ⟨hp.orderly.canonical entry hentry, ?_⟩
  rw [hp.orderly.kept.named entry hentry]
  exact List.mem_map_of_mem hentry

/-- The URI of a loaded document means its location, as seen from the working directory. -/
theorem ofUri_eq (hd : e.disk.Sane) (hp : Loaded e uris references p)
    (hmem : d ∈ p.documents.all) :
    Path.ofUri d.uri = .ok (e.disk.workingPath.join d.location) := by
  obtain ⟨hnamed, hnormal⟩ := (hp.canonical hmem).1
  rw [hnamed, Path.ofUri_toUri rfl hd.normal_workingPath hnormal]

theorem toUri_join (hp : Loaded e uris references p) (hmem : d ∈ p.documents.all) :
    (e.disk.workingPath.join d.location).toUri e.disk.workingPath = d.uri := by
  have habsolute : (e.disk.workingPath.join d.location).isAbsolute = true :=
    Path.isAbsolute_join rfl d.location
  rw [(hp.canonical hmem).1.named, Path.toUri, Path.join_of_isAbsolute _ habsolute, Path.toUri]

/-- To an editor, a loaded document is a source file unless the suffix is its whole name. -/
theorem isSource_iff (hd : e.disk.Sane) (ht : e.disk.Tree) (hp : Loaded e uris references p)
    (hmem : d ∈ p.documents.all) :
    (e.disk.workingPath.join d.location).isSource = true ↔ d.location.name ≠ sourceSuffix := by
  obtain ⟨root, -, hfound⟩ := hp.foundBelow hd ht hmem
  cases hfound with
  | @source top front name _ _ _ _ _ _ hends =>
  have hname : (root.below (front ++ [name])).name = name := by simp [Path.name, Path.below]
  have hparts : (root.below (front ++ [name])).parts ≠ [] := by simp [Path.below]
  have hjoin := Documents.name_join e.disk.workingPath hparts
  rw [Path.isSource_iff_of_ends (by rwa [hjoin, hname]), hjoin]

/-- Taking over a text for a loaded document gives the document another text. -/
theorem update_eq (hd : e.disk.Sane) (hp : Loaded e uris references p)
    (hmem : d ∈ p.documents.all)
    (hsource : (e.disk.workingPath.join d.location).isSource = true) (content : String) :
    (p.documents.update e.disk.workingPath d.uri content).1 =
      (p.edited e d content).documents := by
  rw [Documents.update_of_isSource (hp.ofUri_eq hd hmem) hsource, hp.toUri_join hmem]
  rfl

/-- Behind an edit, no path of a document has null characters if the roots have none. -/
theorem nullFree_edited (hd : e.disk.Sane) (ht : e.disk.Tree)
    (hhome : e.disk.node? e.disk.workingDirectory = some .directory)
    (hp : Loaded e uris references p) (hroots : ∀ root ∈ rootsOf uris, root.NullFree)
    (hmem : d ∈ p.documents.all) (content : String) :
    ∀ s ∈ (p.edited e d content).documents.all, s.location.NullFree := by
  have hloaded : ∀ s ∈ p.documents.all, s.location.NullFree := by
    intro s hs
    obtain ⟨sources, hsources, hfound⟩ := hp.exists_mem_discover hd hs
    obtain ⟨-, root, hroot, names, hnames, hlocation⟩ :=
      location_of_mem_discover hd hsources hfound
    rw [hlocation]
    intro w hw
    exact (List.mem_append.1 hw).elim (hroots root hroot w) fun hw => (hnames w hw).2
  intro s hs
  obtain ⟨entry, hentry, rfl⟩ := List.mem_map.1 hs
  rcases Keyed.mem_of_mem_set hentry with rfl | hold
  · change (e.disk.workingPath.join d.location).NullFree
    unfold Path.join
    split
    · exact hloaded d hmem
    · intro w hw
      exact (List.mem_append.1 hw).elim (fun hw => (Disk.names_of_node? hd ht hhome w hw).1)
        (hloaded d hmem w)
  · exact hloaded _ (List.mem_map_of_mem hold)

/-- With short texts and without null characters in the roots and in the paths of the libraries, the
compiler of this library can compile any edit. -/
theorem recompile_edited_ne_error {disk : Disk} (hd : disk.Sane) (ht : disk.Tree)
    (hhome : disk.node? disk.workingDirectory = some .directory)
    (hp : Loaded ⟨disk, .standard⟩ uris references p)
    (hroots : ∀ root ∈ rootsOf uris, root.NullFree)
    (hlibraries : ∀ s ∈ p.libraries, s.location.NullFree) (hbrief : p.Brief)
    (hmem : d ∈ p.documents.all) {content : String} (hcontent : content.length < 2 ^ 31)
    (r : Refusal) :
    (recompile ⟨disk, .standard⟩ (p.edited ⟨disk, .standard⟩ d content)).1 ≠ .error r := by
  have hcanonical : (d.edited disk.workingPath content).Canonical disk.workingPath :=
    ⟨(hp.toUri_join hmem).symm, hd.normal_workingPath.join (hp.canonical hmem).1.normal⟩
  have horderly : (p.edited ⟨disk, .standard⟩ d content).Orderly ⟨disk, .standard⟩ :=
    ⟨hp.orderly.kept.put _ _, hp.orderly.canonical.put hcanonical⟩
  have hshort : (p.edited ⟨disk, .standard⟩ d content).Brief :=
    ⟨brief_put hbrief.documents d.uri hcontent, hbrief.libraries⟩
  have hclear : ¬ (p.edited ⟨disk, .standard⟩ d content).Balks ⟨disk, .standard⟩ :=
    not_balks hd (nullFree_edited hd ht hhome hp hroots hmem content) hlibraries
      fun root hroot => hroots root (by rwa [edited, hp.workspace] at hroot)
  intro hrefused
  exact hclear ((recompile_refused_iff hd horderly hshort (Prod.ext rfl rfl)).1 hrefused).2.2

end Loaded

/-- A file that directories lead to from a root leads below that root. -/
theorem liesBelow_of_file {disk : Disk} (hd : disk.Sane) (ht : disk.Tree) {root : Path}
    (hroot : root ∈ rootsOf uris) {top : Location} (htop : disk.directory? root = .ok (some top))
    {names : List String} {content : Content} (hfile : disk.Within top names (.file content)) :
    LiesBelow disk uris (root.below names) := by
  obtain ⟨uri, huri, hof⟩ := List.mem_filterMap.1 hroot
  exact ⟨uri, huri, root, top, top ++ names, toOption_eq_some_iff.1 hof,
    Disk.realPath_of_directory? hd ht htop, Disk.realPath_below hd ht htop hfile (by simp),
    List.prefix_append _ _⟩

/-- A loaded document is edited if it is not called `.npl`, if it belongs to the workspace, and if
compiling the new text is not refused. Otherwise it stays as it is, or it is dropped. -/
theorem Loaded.edited_iff (hd : e.disk.Sane) (ht : e.disk.Tree)
    (hhome : e.disk.node? e.disk.workingDirectory = some .directory)
    (hp : Loaded e uris references p) {d : Source} (hmem : d ∈ p.documents.all) (content : String)
    {x : Except Refusal Bool} (h : (Watched.update e d.uri content true).Comes p ms x q) :
    (Edited e p d content ms x q ↔ d.location.name ≠ sourceSuffix ∧
      p.workspace.contains e.disk d.location = .ok true ∧
      ∀ r, (recompile e (p.edited e d content)).1 ≠ .error r) ∧
    (d.location.name = sourceSuffix → x = .ok false ∧ q = p) ∧
    (d.location.name ≠ sourceSuffix → p.workspace.contains e.disk d.location = .ok false →
      x ≠ .ok true ∧ q.documents.sources = p.documents.sources.erase d.uri) := by
  have hcontains : p.workspace.contains e.disk (e.disk.workingPath.join d.location) =
      p.workspace.contains e.disk d.location := Workspace.contains_join hd ht hhome
  have hsource := hp.isSource_iff hd ht hmem
  obtain ⟨hcanonical, hkey⟩ := hp.canonical hmem
  cases updating_of_comes (hp.ofUri_eq hd hmem) h with
  | other hno =>
      have hname : d.location.name = sourceSuffix := by simpa [hno] using hsource
      refine ⟨⟨fun hedited => absurd hedited.answer (by simp), ?_⟩, fun _ => ⟨rfl, rfl⟩, ?_⟩
      · exact fun hok => absurd hname hok.1
      · exact fun hne => absurd hname hne
  | @refused r hyes hrefused =>
      rw [hcontains] at hrefused
      have hname := hsource.1 hyes
      refine ⟨⟨fun hedited => absurd hedited.answer (by simp), ?_⟩, fun hs => absurd hs hname, ?_⟩
      · exact fun hok => absurd (hrefused.symm.trans hok.2.1) (by simp)
      · exact fun _ hout => absurd (hrefused.symm.trans hout) (by simp)
  | @outside _ y _ hyes hout hdrop =>
      rw [hcontains] at hout
      have hname := hsource.1 hyes
      have hx : (y.map fun _ => false) ≠ .ok true := by cases y <;> simp [Except.map]
      refine ⟨⟨fun hedited => absurd hedited.answer hx, ?_⟩, fun hs => absurd hs hname, ?_⟩
      · exact fun hok => absurd (hout.symm.trans hok.2.1) (by simp)
      · exact fun _ _ => ⟨hx, sources_of_dropOutside (hcanonical.eq hd) hkey hdrop⟩
  | @taken told y _ hyes hinside hcomes =>
      rw [hcontains] at hinside
      have hname := hsource.1 hyes
      have hcomes : (Watched.recompile e).Comes (p.edited e d content) told y q := by
        rwa [hp.update_eq hd hmem hyes] at hcomes
      have hy : (recompile e (p.edited e d content)).1 = y :=
        congrArg Prod.fst (Watched.act_recompile e ▸ hcomes.ends)
      rw [hy]
      refine ⟨⟨fun hedited => ⟨hname, hinside, fun r hr => ?_⟩, ?_⟩, fun hs => absurd hs hname, ?_⟩
      · have hanswer := hedited.answer
        rw [hr] at hanswer
        simp [Except.map] at hanswer
      · rintro ⟨-, -, hok⟩
        exact edited_of_recompile hd ht hhome hkey hinside hcomes hok
      · exact fun _ hout => absurd (hinside.symm.trans hout) (by simp)

/-- **Discovery and editing differ about two kinds of documents.** Behind any history of a project,
load it anew from what can be gathered, and edit one of the documents that were found. The document
has the new text then, under the same key, and is compiled with it, exactly if it is not called
`.npl`, if it belongs to the workspace, and if compiling is not refused. If it is called `.npl`
nothing happens, and if it does not belong to the workspace it is dropped. As long as roots have no
null characters, it belongs to the workspace exactly if it really lies below a root, as all files do
that are no links; and compiling short texts is refused then only if a library lies at a path with
null characters. -/
theorem edited_iff_of_load (connection : Connection) {wd : Path}
    {ops : List (Surroundings × Operation)}
    (hops : ∀ o ∈ ops, o.1.disk.Sane ∧ o.1.disk.workingPath = wd) (hwd : e.disk.workingPath = wd)
    (hd : e.disk.Sane) (ht : e.disk.Tree)
    (hhome : e.disk.node? e.disk.workingDirectory = some .directory)
    (hgathered : ∀ r, (gather e.disk (rootsOf uris) references).1 ≠ .error r)
    {y : Except Refusal Unit}
    (hload : Ends (load e uris references) (serve (start connection) ops) y p)
    {d : Source} (hmem : d ∈ p.documents.all) (content : String) {x : Except Refusal Bool}
    (h : (Watched.update e d.uri content true).Comes p ms x q) :
    (Edited e p d content ms x q ↔ d.location.name ≠ sourceSuffix ∧
      p.workspace.contains e.disk d.location = .ok true ∧
      ∀ r, (recompile e (p.edited e d content)).1 ≠ .error r) ∧
    (d.location.name = sourceSuffix → x = .ok false ∧ q = p) ∧
    (d.location.name ≠ sourceSuffix → p.workspace.contains e.disk d.location = .ok false →
      x ≠ .ok true ∧ q.documents.sources = p.documents.sources.erase d.uri) ∧
    ((∀ root ∈ rootsOf uris, root.NullFree) →
      (p.workspace.contains e.disk d.location = .ok true ↔ LiesBelow e.disk uris d.location) ∧
      (∀ root ∈ rootsOf uris, ∀ top names bytes, e.disk.directory? root = .ok (some top) →
        e.disk.Within top names (.file bytes) → d.location = root.below names →
        LiesBelow e.disk uris d.location) ∧
      (e.compiler = .standard → (∀ s ∈ p.libraries, s.location.NullFree) → p.Brief →
        content.length < 2 ^ 31 → ∀ r, (recompile e (p.edited e d content)).1 ≠ .error r)) := by
  have hp : Loaded e uris references p := by
    have horderly := orderly_serve hops (fun _ _ => (orderly_start connection).1) hwd
    rcases loaded_of_load hd horderly hload with ⟨r, hr, -⟩ | hp
    · exact absurd hr (hgathered r)
    · exact hp
  obtain ⟨hedited, hunsuffixed, hdropped⟩ := hp.edited_iff hd ht hhome hmem content h
  refine ⟨hedited, hunsuffixed, hdropped, fun hroots => ⟨?below, ?file, ?compiled⟩⟩
  case below =>
    obtain ⟨root, hroot, -⟩ := hp.foundBelow hd ht hmem
    rw [hp.workspace]
    exact contains_iff_liesBelow hd (List.ne_nil_of_mem hroot) hroots
  case file =>
    intro root hroot top names bytes htop hfile hlocation
    rw [hlocation]
    exact liesBelow_of_file hd ht hroot htop hfile
  case compiled =>
    intro hstandard hfree hbrief hcontent r
    obtain ⟨disk, compiler⟩ := e
    subst hstandard
    exact hp.recompile_edited_ne_error hd ht hhome hroots hfree hbrief hmem hcontent r

/-- A directory with a source, one with a file that is called `.npl`, and one with a link that leads
to a source elsewhere. -/
def linkedDirectories : Surroundings where
  compiler := .standard
  disk := {
    workingDirectory := []
    entries := [
      (["one"], .directory),
      (["one", "a.npl"], .file (.bytes (Text.Utf8.encode "package a\n".toList))),
      (["two"], .directory),
      (["two", ".npl"], .file (.bytes (Text.Utf8.encode "package b\n".toList))),
      (["three"], .directory),
      (["three", "c.npl"], .link "../elsewhere/c.npl"),
      (["elsewhere"], .directory),
      (["elsewhere", "c.npl"], .file (.bytes (Text.Utf8.encode "package c\n".toList)))] }

/-- The three directories. -/
def threeRoots : List String :=
  ["file:///one", "file:///two", "file:///three"]

/-- The project behind loading them. -/
def loadedDirectories : Project :=
  (load linkedDirectories threeRoots [] (start (.start .plain 30 false))).2

/-- The document in the first directory. -/
def ordinary : Source :=
  ⟨"file:///one/a.npl", ⟨.single, ["one", "a.npl"]⟩, "package a\n", false⟩

/-- The one that is called `.npl`. -/
def unsuffixed : Source :=
  ⟨"file:///two/.npl", ⟨.single, ["two", ".npl"]⟩, "package b\n", false⟩

/-- The one behind the link. -/
def behindLink : Source :=
  ⟨"file:///three/c.npl", ⟨.single, ["three", "c.npl"]⟩, "package c\n", false⟩

/-- Edits one of them. -/
def editing (d : Source) : Watched Bool :=
  .update linkedDirectories d.uri "package d\n" true

/-- The document in the first directory is edited. The one that is called `.npl` stays as it is, and
the one behind the link is dropped. -/
theorem edited_iff_of_load_linkedDirectories :
    loadedDirectories.documents.all = [ordinary, unsuffixed, behindLink] ∧
    Edited linkedDirectories loadedDirectories ordinary "package d\n"
      ((editing ordinary).told loadedDirectories) ((editing ordinary).act loadedDirectories).1
      ((editing ordinary).act loadedDirectories).2 ∧
    ((editing unsuffixed).act loadedDirectories).1 = .ok false ∧
    ((editing unsuffixed).act loadedDirectories).2 = loadedDirectories ∧
    ((editing behindLink).act loadedDirectories).1 ≠ .ok true ∧
    ((editing behindLink).act loadedDirectories).2.documents.sources.keys =
      [ordinary.uri, unsuffixed.uri] := by
  have htargets : ∀ l target, (l, Node.link target) ∈ linkedDirectories.disk.entries →
      NullFree target := by
    intro l target hmem
    obtain ⟨-, rfl⟩ : l = ["three", "c.npl"] ∧ target = "../elsewhere/c.npl" := by
      simpa [linkedDirectories] using hmem
    decide
  have hd : linkedDirectories.disk.Sane := ⟨by decide, htargets, by decide⟩
  have ht : linkedDirectories.disk.Tree := ⟨by decide, by decide, by decide⟩
  have hroots : rootsOf threeRoots =
      [⟨.single, ["one"]⟩, ⟨.single, ["two"]⟩, ⟨.single, ["three"]⟩] := by decide +kernel
  obtain ⟨hall, hlibraries, hworkspace, hothers⟩ :
      loadedDirectories.documents.all = [ordinary, unsuffixed, behindLink] ∧
      loadedDirectories.libraries = [] ∧
      loadedDirectories.workspace = ⟨rootsOf threeRoots⟩ ∧
      (loadedDirectories.documents.sources.erase behindLink.uri).keys =
        [ordinary.uri, unsuffixed.uri] := by
    decide +kernel
  have hfree : ∀ root ∈ rootsOf threeRoots, root.NullFree := by
    rw [hroots]
    decide
  have hbrief : loadedDirectories.Brief := by
    refine ⟨?_, by simp [hlibraries]⟩
    rw [hall]
    decide
  have hload : Ends (load linkedDirectories threeRoots [])
      (serve (start (.start .plain 30 false)) [])
      (load linkedDirectories threeRoots [] (start (.start .plain 30 false))).1
      loadedDirectories := by
    unfold loadedDirectories
    exact Prod.mk.eta.symm
  have hcomes : ∀ d, (editing d).Comes loadedDirectories ((editing d).told loadedDirectories)
      ((editing d).act loadedDirectories).1 ((editing d).act loadedDirectories).2 :=
    fun d => ⟨Prod.ext rfl rfl, rfl⟩
  have hgathered : ∀ r, (gather linkedDirectories.disk (rootsOf threeRoots) []).1 ≠ .error r := by
    have hsome : (gather linkedDirectories.disk (rootsOf threeRoots) []).1.toOption.isSome := by
      decide +kernel
    intro r hr
    simp [hr, Except.toOption] at hsome
  have hedits := fun d hmem => edited_iff_of_load (.start .plain 30 false) (by simp) rfl
    hd ht rfl hgathered hload (d := d) hmem "package d\n" (hcomes d)
  refine ⟨hall, ?ordinary, and_assoc.1 ⟨?unsuffixed, ?link⟩⟩
  case ordinary =>
    obtain ⟨hedited, -, -, hlies⟩ := hedits ordinary (by simp [hall])
    obtain ⟨hbelow, hfile, hcompiled⟩ := hlies hfree
    refine hedited.2 ⟨by decide, hbelow.2 ?_, ?_⟩
    · exact hfile ⟨.single, ["one"]⟩ (by simp [hroots]) ["one"] ["a.npl"] _ (by decide +kernel)
        (.child rfl rfl) rfl
    · exact hcompiled rfl (by simp [hlibraries]) hbrief (by decide)
  case unsuffixed =>
    obtain ⟨-, hname, -⟩ := hedits unsuffixed (by simp [hall])
    exact hname (by decide)
  case link =>
    obtain ⟨-, -, hdropped, -⟩ := hedits behindLink (by simp [hall])
    have hout : loadedDirectories.workspace.contains linkedDirectories.disk behindLink.location =
        .ok false := by
      rw [hworkspace, hroots]
      exact toOption_eq_some_iff.1 (by decide +kernel)
    obtain ⟨hx, hsources⟩ := hdropped (by decide) hout
    refine ⟨hx, ?_⟩
    rw [hsources, hothers]

end Project

end Npl
