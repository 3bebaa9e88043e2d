import Npl.Project.Change
import Npl.Proofs.Documents
import Npl.Proofs.Path.Uri
import Npl.Proofs.Workspace

/-!
# Placed documents

A document is placed if its URI is the canonical one of its location. All documents of a project are,
whether the editor sent them or they were found on the disk. So the key of a document can be told from
the document, and looking its URI up finds it.

## Main definitions

* `Source.Placed`, `Documents.Placed` — placed documents.
* `Project.Tidy` — what holds of a project between any two actions.

## Main results

* `Source.Placed.canonical` — the URI of a placed document is its own canonical spelling.
* `placed_of_mem_discover` — what is found on the disk is placed.
* `Project.Tidy.candidates` — the documents of the workspace can be told.
-/

namespace Npl

/-! ### Sources -/

/-- A source whose URI is the canonical one of its location, which is a path as reading gives it. -/
structure Source.Placed (wd : Path) (s : Source) : Prop where
  named : s.uri = s.location.toUri wd
  normal : s.location.Normal
  nullFree : s.location.NullFree

variable {disk : Disk}

theorem Disk.Sane.normal_workingPath (hd : disk.Sane) : disk.workingPath.Normal :=
  hd.workingDirectory

/-- The URI of a placed document is its own canonical spelling. -/
theorem Source.Placed.canonical (hd : disk.Sane) {s : Source} (h : s.Placed disk.workingPath) :
    canonicalUri disk.workingPath s.uri = .ok s.uri := by
  rw [h.named]
  exact canonicalUri_toUri rfl hd.normal_workingPath h.normal

/-! ### Discovery -/

/-- The names below a directory are names of entries. -/
theorem isName_of_mem_entriesBelow (hd : disk.Sane) {top : Location} {names : List String}
    {node : Node} (h : (names, node) ∈ disk.entriesBelow top) :
    ∀ w ∈ names, Path.IsName w ∧ NullFree w := by
  rw [Disk.entriesBelow, List.mem_mergeSort, List.mem_filterMap] at h
  obtain ⟨⟨l, node'⟩, hentry, hbelow⟩ := h
  obtain ⟨names', hnames, heq⟩ := Option.map_eq_some_iff.1 hbelow
  obtain ⟨rfl, rfl⟩ := Prod.mk.inj heq
  unfold Disk.namesBelow? at hnames
  split at hnames
  · obtain rfl := Option.some.inj hnames
    exact fun w hw => hd.names _ hentry w (List.mem_of_mem_drop hw)
  · simp at hnames

/-- A path as reading gives it, without null characters. -/
structure Path.Clean (p : Path) : Prop where
  normal : p.Normal
  nullFree : p.NullFree

/-- What is listed below a directory are entries. -/
theorem eq_entriesBelow_of_list {root : Path} {top : Location} {entries : List (List String × Node)}
    (h : disk.list root top = .ok entries) : entries = disk.entriesBelow top := by
  unfold Disk.list at h
  split at h
  · simp at h
  · exact (Except.ok.inj h).symm

/-- A source that is found at an entry lies there, under its canonical URI. -/
theorem location_of_discoverEntry {root : Path} {names : List String} {node : Node} {s : Source}
    (h : (discoverEntry disk root (names, node)).1 = some s) :
    s.uri = s.location.toUri disk.workingPath ∧ s.location = root.below names := by
  simp only [discoverEntry] at h
  split at h
  · simp at h
  split at h
  · simp at h
  · split at h <;> simp at h
  · split at h
    · obtain rfl := Option.some.inj h
      exact ⟨rfl, rfl⟩
    · simp at h

/-- What is found below a root is nothing, or what is found at the entries there. -/
theorem discoverRoot_cases {root : Path} {found : List Source × List LogRecord}
    (h : discoverRoot disk root = .ok found) :
    (disk.directory? root = .ok none ∧ found.1 = []) ∨
      ∃ top, disk.directory? root = .ok (some top) ∧
        disk.list root top = .ok (disk.entriesBelow top) ∧
        found.1 = (sourceEntries (disk.entriesBelow top)).filterMap fun entry =>
          (discoverEntry disk root entry).1 := by
  obtain ⟨top?, htop, h⟩ := bind_eq_ok_iff.1 h
  cases top? with
  | none =>
      obtain rfl := pure_eq_ok_iff.1 h
      exact .inl ⟨htop, rfl⟩
  | some top =>
      obtain ⟨entries, hentries, h⟩ := bind_eq_ok_iff.1 h
      obtain rfl := eq_entriesBelow_of_list hentries
      obtain rfl := pure_eq_ok_iff.1 h
      exact .inr ⟨top, htop, hentries, List.filterMap_map⟩

/-- What is found below several roots is found below one of them. -/
theorem exists_of_mem_discoverFrom {roots : List Path} {sources : List Source}
    (h : (discoverFrom disk roots).1 = .ok sources) {s : Source} (hs : s ∈ sources) :
    ∃ root ∈ roots, ∃ found, discoverRoot disk root = .ok found ∧ s ∈ found.1 := by
  induction roots generalizing sources with
  | nil =>
      obtain rfl := Except.ok.inj h
      simp at hs
  | cons root roots ih =>
      rw [discoverFrom] at h
      split at h
      · simp at h
      next first records hroot =>
      obtain ⟨others, hothers, rfl⟩ := map_eq_ok_iff.1 h
      rcases List.mem_append.1 hs with hs | hs
      · exact ⟨root, List.mem_cons_self, (first, records), hroot, hs⟩
      · obtain ⟨root', hroot', hfound⟩ := ih hothers hs
        exact ⟨root', List.mem_cons_of_mem _ hroot', hfound⟩

/-- What there is to say at the end changes nothing about what is found. -/
theorem discover_fst (disk : Disk) (roots : List Path) :
    (discover disk roots).1 = (discoverFrom disk roots).1 := by
  rw [discover]
  split
  · next h => rw [h]
  · next h => rw [h]

/-- What is found on the disk lies below a root, under its canonical URI. -/
theorem location_of_mem_discover (hd : disk.Sane) {roots : List Path} {sources : List Source}
    (h : (discover disk roots).1 = .ok sources) {s : Source} (hs : s ∈ sources) :
    s.uri = s.location.toUri disk.workingPath ∧ ∃ root ∈ roots, ∃ names : List String,
      (∀ w ∈ names, Path.IsName w ∧ NullFree w) ∧ s.location = root.below names := by
  rw [discover_fst] at h
  obtain ⟨root, hroot, found, hfound, hs⟩ := exists_of_mem_discoverFrom h hs
  rcases discoverRoot_cases hfound with ⟨-, hnone⟩ | ⟨top, -, -, hentries⟩
  · simp [hnone] at hs
  · rw [hentries] at hs
    obtain ⟨⟨names, node⟩, hentry, hsource⟩ := List.mem_filterMap.1 hs
    have hnames := isName_of_mem_entriesBelow hd (List.mem_filter.1 hentry).1
    obtain ⟨huri, hlocation⟩ := location_of_discoverEntry hsource
    exact ⟨huri, root, hroot, names, hnames, hlocation⟩

/-- What is found on the disk is placed. -/
theorem placed_of_mem_discover (hd : disk.Sane) {roots : List Path}
    (hroots : ∀ root ∈ roots, root.Clean) {sources : List Source}
    (h : (discover disk roots).1 = .ok sources) {s : Source} (hs : s ∈ sources) :
    s.Placed disk.workingPath := by
  obtain ⟨huri, root, hroot, names, hnames, hlocation⟩ := location_of_mem_discover hd h hs
  refine ⟨huri, ?_, ?_⟩
  · rw [hlocation]
    exact (hroots root hroot).normal.below fun w hw => (hnames w hw).1
  · rw [hlocation]
    intro w hw
    rcases List.mem_append.1 hw with hw | hw
    · exact (hroots root hroot).nullFree w hw
    · exact (hnames w hw).2

/-! ### Documents -/

namespace Documents

/-- Documents all of which are placed. -/
def Placed (wd : Path) (d : Documents) : Prop :=
  ∀ e ∈ d.sources.entries, e.2.Placed wd

theorem Placed.put {wd : Path} {d : Documents} (h : d.Placed wd) {key : String} {s : Source}
    (hs : Source.Placed wd { s with uri := key }) : (d.put key s).Placed wd := by
  intro e he
  rcases Keyed.mem_of_mem_set he with rfl | hold
  · exact hs
  · exact h e hold

theorem Placed.removeKey {wd : Path} {d : Documents} (h : d.Placed wd) (key : String) :
    (d.removeKey key).1.Placed wd :=
  fun e he => h e (Keyed.mem_of_mem_erase he).1

/-- Adding placed sources keeps documents placed. -/
theorem Placed.putAll (hd : disk.Sane) {d : Documents} (h : d.Placed disk.workingPath)
    {ss : List Source} (hss : ∀ s ∈ ss, s.Placed disk.workingPath) :
    (d.putAll disk.workingPath ss).1.Placed disk.workingPath := by
  induction ss generalizing d with
  | nil => exact h
  | cons s ss ih =>
      have hs := hss s List.mem_cons_self
      have hsame : ({ s with uri := s.uri } : Source).Placed disk.workingPath := hs
      rw [Documents.putAll, hs.canonical hd]
      exact ih (h.put hsame) fun t ht => hss t (List.mem_cons_of_mem _ ht)

end Documents

/-! ### Projects -/

namespace Project

/-- The documents of the workspace, as far as that can be told. -/
def inScope (disk : Disk) (p : Project) : List Source :=
  p.documents.all.filter fun s => isYes (p.workspace.contains disk s.location)

/-- What holds of a project between any two actions: its documents are kept well and are placed, and
its roots have no null characters. -/
structure Tidy (disk : Disk) (p : Project) : Prop where
  kept : p.documents.Kept
  placed : p.documents.Placed disk.workingPath
  roots : ∀ root ∈ p.workspace.roots, root.NullFree

namespace Tidy

variable {p q : Project}

/-- A document of a project is placed. -/
theorem placed_of_mem (h : p.Tidy disk) {s : Source} (hs : s ∈ p.documents.all) :
    s.Placed disk.workingPath := by
  obtain ⟨e, he, rfl⟩ := List.mem_map.1 hs
  exact h.placed e he

/-- Whether a document belongs to the workspace can be told. -/
theorem exists_contains (hd : disk.Sane) (h : p.Tidy disk) {s : Source}
    (hs : s ∈ p.documents.all) : ∃ b, p.workspace.contains disk s.location = .ok b :=
  Workspace.exists_contains hd h.roots (h.placed_of_mem hs).nullFree

/-- The documents of the workspace can be told. -/
theorem candidates {e : Surroundings} (hd : e.disk.Sane) (h : p.Tidy e.disk) :
    p.candidates e = .ok (p.inScope e.disk) :=
  filterM_eq_ok_iff.2 ⟨fun _ hs => h.exists_contains hd hs, rfl⟩

/-- The documents have distinct URIs. -/
theorem nodup_uris (h : p.Tidy disk) : (p.documents.all.map Source.uri).Nodup :=
  h.kept.nodup_uris

/-- A project with the same documents and roots is as tidy. -/
theorem of_same (h : p.Tidy disk) (hdocuments : q.documents = p.documents)
    (hworkspace : q.workspace = p.workspace) : q.Tidy disk :=
  ⟨hdocuments ▸ h.kept, hdocuments ▸ h.placed, hworkspace ▸ h.roots⟩

end Tidy

/-- There are no documents and no roots to be untidy. -/
theorem tidy_start (disk : Disk) (connection : Connection) : (start connection).Tidy disk :=
  ⟨Documents.kept_cleared 0, by simp [Documents.Placed, start, Documents.empty, Keyed.empty],
    by simp [start]⟩

end Project

end Npl
