import Npl.Proofs.Project.Effect
import Npl.Proofs.Project.History

/-!
# Loading a project anew

Loading gives a project the roots, the libraries and the documents that are found on the disk, and
then compiles it. Of what was there before, the numbers of the changes stay, and nothing that was
compiled does: whatever the project held and showed, it has caught up with what was found. So two
projects into which the same is loaded coincide.

## Main definitions

* `Project.Loaded` — what loading leaves behind.
* `Project.Coincide` — two projects hold the same, and have the same report.

## Main results

* `Project.loaded_of_load` — loading leaves that behind, unless it cannot be gathered.
* `Project.Loaded.coincide` — two loaded projects coincide.
-/

namespace Npl

/-! ### Documents -/

namespace Documents

/-- The sources behind an addition depend on the sources before it only. -/
theorem sources_putAll_congr {d d' : Documents} (h : d.sources = d'.sources) (wd : Path)
    (ss : List Source) : (d.putAll wd ss).1.sources = (d'.putAll wd ss).1.sources := by
  induction ss generalizing d d' with
  | nil => exact h
  | cons s ss ih =>
      unfold putAll
      split
      · exact h
      · exact ih (by simp only [put, touch, h])

/-- Sources that replace all documents do so whatever the documents are. -/
theorem sources_replaceAll (d : Documents) (wd : Path) (sources : List Source) :
    (d.replaceAll wd sources).1.sources = (empty.replaceAll wd sources).1.sources :=
  sources_putAll_congr
    (show ({ d with sources := .empty, dirty := .empty } : Documents).sources = empty.sources from rfl)
    wd sources

end Documents

namespace Project

open Npl.Project.Action

variable {e : Surroundings} {p q : Project} {uris references : List String}

/-! ### What loading leaves behind -/

/-- The project has the roots, the libraries and the documents that are found on the disk, and it
has caught up with them. -/
structure Loaded (e : Surroundings) (uris references : List String) (q : Project) : Prop where
  orderly : q.Orderly e
  workspace : q.workspace = ⟨rootsOf uris⟩
  gathered : ∃ found, (gather e.disk (rootsOf uris) references).1 = .ok (found, q.libraries) ∧
    q.documents.sources = (Documents.empty.replaceAll e.disk.workingPath found).1.sources
  caughtUp : CaughtUp e q

/-- Clearing the diagnostics of URIs that make sense is not refused. -/
theorem ok_of_retracts {keys : List String}
    (hkeys : ∀ key ∈ keys, canonicalUri e.disk.workingPath key = .ok key)
    {x : Except Refusal PUnit} (h : Ends (keys.forM (retract e)) p x q) : x = .ok ⟨⟩ := by
  induction keys generalizing p with
  | nil => exact (ends_pure_iff.1 h).1
  | cons key keys ih =>
      have hkey := hkeys key List.mem_cons_self
      rcases ends_bind_iff.1 h with ⟨r, hr, -⟩ | ⟨u, mid, -, htail⟩
      · rcases retract_cases hr with ⟨r', hr', -⟩ | ⟨-, -, hx, -⟩
        · simp [hkey] at hr'
        · simp at hx
      · exact ih (fun k hk => hkeys k (List.mem_cons_of_mem _ hk)) htail

/-- A project whose documents were replaced by canonical ones has something to compile, or there is
nothing to catch up with. -/
theorem unsettled_or_caughtUp_of_replaceAll {d : Documents} {sources : List Source}
    (hsources : ∀ s ∈ sources, canonicalUri e.disk.workingPath s.uri = .ok s.uri)
    (hp : p.documents = (d.replaceAll e.disk.workingPath sources).1) :
    p.isSettled = false ∨ CaughtUp e p := by
  by_cases hne : sources = []
  · right
    subst hne
    intro documents report hdocuments hdocumentsNe
    have hall : p.documents.all = [] := by
      rw [hp]
      rfl
    rw [candidates, hall] at hdocuments
    exact absurd (Except.ok.inj hdocuments).symm hdocumentsNe
  · left
    have hdirty := (dirty_putAll (d := { d with sources := .empty, dirty := .empty }) hne
      hsources).1
    rw [isSettled, hp]
    simp [Documents.replaceAll, hdirty]

/-- **Loading is refused because something cannot be gathered, or leaves behind what was found.** -/
theorem loaded_of_load (hd : e.disk.Sane) (hp : p.Orderly e) {x : Except Refusal Unit}
    (h : Ends (load e uris references) p x q) :
    (∃ r, (gather e.disk (rootsOf uris) references).1 = .error r ∧ x = .error r ∧ Logged p q) ∨
      Loaded e uris references q := by
  rcases load_cases h with hrefused | ⟨found, libraries, mid, hgathered, -, h⟩
  · exact .inl hrefused
  right
  have hcanonical := canonical_of_found hd (gather_eq_ok_iff.1 hgathered).1
  have hvanished := Documents.vanished_replaceAll hd p.documents hcanonical
  unfold finishLoad at h
  rw [ends_answer_bind_iff] at h
  rcases h with ⟨r, hr, -, -⟩ | ⟨vanished, hvanished', h⟩
  · obtain ⟨r', hr', -⟩ := mapError_eq_error_iff.1 hr
    simp [hvanished] at hr'
  obtain rfl := Except.ok.inj (hvanished.symm.trans (mapError_eq_ok_iff.1 hvanished'))
  rw [ends_modify_bind_iff] at h
  have hkeys : ∀ key ∈ (p.documents.sources.keys.filter fun key =>
      !(p.documents.replaceAll e.disk.workingPath found).1.sources.contains key).mergeSort
        fun a b => !(b < a), canonicalUri e.disk.workingPath key = .ok key :=
    fun key hkey => hp.canonicalUri_key hd (List.mem_filter.1 (List.mem_mergeSort.1 hkey)).1
  rcases ends_bind_iff.1 h with ⟨r, hr, -⟩ | ⟨u, cleared, hretracts, hdiscard⟩
  · exact absurd (ok_of_retracts hkeys hr) (by simp)
  obtain ⟨y, hrecompile, -⟩ := ends_discard_iff.1 hdiscard
  have hcleared := ends_retracts hretracts
  have hdocuments : cleared.documents = (p.documents.replaceAll e.disk.workingPath found).1 := by
    rw [hcleared]
  have horderly : cleared.Orderly e := orderly_replaceAll hd p.documents hcanonical hdocuments
  obtain ⟨hq, halike, hcaught⟩ := caughtUp_of_recompile hd horderly
    (unsettled_or_caughtUp_of_replaceAll (fun s hs => (hcanonical s hs).eq hd) hdocuments)
    hrecompile
  refine ⟨hq, ?_, ⟨found, ?_, ?_⟩, hcaught⟩
  · rw [halike.workspace, hcleared]
  · rw [halike.libraries, hcleared]
    exact hgathered
  · rw [halike.sources, hdocuments]
    exact Documents.sources_replaceAll _ _ _

/-! ### Two loaded projects -/

/-- The projects hold the same documents in the same order, the same roots and the same libraries,
nothing waits in either of them, both have the given report, and if that can be shown at all, both
show it in the same way. -/
structure Coincide (e : Surroundings) (report : Report) (p q : Project) : Prop where
  sources : q.documents.sources = p.documents.sources
  workspace : q.workspace = p.workspace
  libraries : q.libraries = p.libraries
  clean : p.documents.dirty = .empty
  clean' : q.documents.dirty = .empty
  last : p.last? = some report
  last' : q.last? = some report
  board : p.Showable e → q.display.board = p.display.board

/-- If the same is loaded into two projects, and compiling it gives a report, they coincide. -/
theorem Loaded.coincide (hp : Loaded e uris references p) (hq : Loaded e uris references q)
    {documents : List Source} {report : Report} (hdocuments : p.candidates e = .ok documents)
    (hne : documents ≠ [])
    (hreport : (e.compiler (p.together documents)).result = .ok (.finished report)) :
    Coincide e report p q := by
  obtain ⟨found, hgathered, hpSources⟩ := hp.gathered
  obtain ⟨found', hgathered', hqSources⟩ := hq.gathered
  obtain ⟨rfl, hlibraries⟩ : found' = found ∧ q.libraries = p.libraries :=
    Prod.mk.inj (Except.ok.inj (hgathered'.symm.trans hgathered))
  have hsources : q.documents.sources = p.documents.sources := hqSources.trans hpSources.symm
  have hworkspace : q.workspace = p.workspace := hq.workspace.trans hp.workspace.symm
  have hcandidates : q.candidates e = .ok documents := by
    rw [candidates, Documents.all, hsources, hworkspace]
    exact hdocuments
  obtain ⟨hclean, hlast, hshows⟩ := hp.caughtUp documents report hdocuments hne hreport
  rw [← together_congr hlibraries documents] at hreport
  obtain ⟨hclean', hlast', hshows'⟩ := hq.caughtUp documents report hcandidates hne hreport
  refine ⟨hsources, hworkspace, hlibraries, hclean, hclean', hlast, hlast', ?_⟩
  rintro ⟨report', located, hsame, hlocated⟩
  obtain rfl := Option.some.inj (hlast.symm.trans hsame)
  have hentries := (hshows' located hlocated).trans (hshows located hlocated).symm
  exact congrArg (fun entries => Board.mk (Keyed.mk entries)) hentries

/-- The editor shows nothing for a URI that is not on the board. -/
theorem view_of_not_shown {client : Client} (h : Board.Faithful client p) {uri : String}
    (huri : uri ∉ p.display.board.shown.keys) : p.display.connection.view uri = [] := by
  rw [h.mirrored]
  split
  · rfl
  · rw [Board.view, Keyed.get?_eq_none_iff.2 huri, Option.getD_none]

end Project

end Npl
