import Npl.Proofs.Project.Operation

/-!
# Reports that are up to date

The last report is up to date if compiling again would give it again. The board then shows, for the
documents that were compiled and for no others, what the report says about them, unless a message of
the report has no diagnostic. Recompiling a project that is not settled leaves the last report up to
date, or leaves the project unsettled.

## Main definitions

* `Project.Reported` — the last report is what compiling gives.
* `Project.Shows` — the board shows diagnostics for documents.
* `Project.Matches` — both, the board showing the last report.
* `Project.Current` — an up-to-date report as soon as the project is settled.
* `Project.Recompiled` — what recompiling leaves as it was and what it achieves.

## Main results

* `Project.shown_of_board` — what a report that can be shown puts on the board.
* `Project.recompiled_of_ends` — what recompiling comes to.
-/

namespace Npl

/-- The diagnostics at a URI. -/
def diagnosticsAt (located : List (String × Diagnostic)) (uri : String) : List Diagnostic :=
  located.filterMap fun (place, d) => if place = uri then some d else none

namespace Project

open Npl.Project.Action

variable {e : Surroundings} {p q : Project}

/-! ### Up to date -/

/-- The last report is what compiling the documents gives. -/
def Reported (e : Surroundings) (p : Project) (documents : List Source) (report : Report) : Prop :=
  p.last? = some report ∧ (e.compiler (p.together documents)).result = .ok (.finished report)

/-- The board shows diagnostics for each of the documents, and for nothing else. -/
def Shows (p : Project) (documents : List Source) (located : List (String × Diagnostic)) : Prop :=
  p.display.board.shown.entries = documents.map fun s => (s.uri, diagnosticsAt located s.uri)

/-- The last report is what compiling the documents gives, and it is shown for these documents. -/
def Matches (e : Surroundings) (p : Project) (documents : List Source) : Prop :=
  ∃ report located, p.Reported e documents report ∧
    Board.locate e.disk.workingPath report.messages = .ok located ∧ p.Shows documents located

/-- All messages of the last report have diagnostics. -/
def Showable (e : Surroundings) (p : Project) : Prop :=
  ∃ report located, p.last? = some report ∧
    Board.locate e.disk.workingPath report.messages = .ok located

/-- The diagnostics of the last report, if all its messages have some. -/
def located? (e : Surroundings) (p : Project) : Option (List (String × Diagnostic)) :=
  p.last?.bind fun report => (Board.locate e.disk.workingPath report.messages).toOption

theorem showable_iff : p.Showable e ↔ (p.located? e).isSome = true := by
  simp only [Showable, located?, Option.isSome_iff_exists, Option.bind_eq_some_iff,
    toOption_eq_some_iff]
  exact ⟨fun ⟨report, located, h⟩ => ⟨located, report, h⟩,
    fun ⟨located, report, h⟩ => ⟨report, located, h⟩⟩

instance : Decidable (p.Showable e) :=
  decidable_of_iff _ showable_iff.symm

/-- The last report is what compiling the documents gives, and it is shown for them if it can be. -/
def UpToDate (e : Surroundings) (p : Project) (documents : List Source) : Prop :=
  ∃ report, p.Reported e documents report ∧
    ∀ located, Board.locate e.disk.workingPath report.messages = .ok located →
      p.Shows documents located

/-- What is up to date matches if it can be shown, and only then. -/
theorem UpToDate.matches_iff_showable {documents : List Source} (h : p.UpToDate e documents) :
    p.Matches e documents ↔ p.Showable e := by
  obtain ⟨report, hreported, hshown⟩ := h
  constructor
  · rintro ⟨report', located, hreported', hlocated, -⟩
    exact ⟨report', located, hreported'.1, hlocated⟩
  · rintro ⟨report', located, hlast, hlocated⟩
    obtain rfl := Option.some.inj (hreported.1.symm.trans hlast)
    exact ⟨report, located, hreported, hlocated, hshown located hlocated⟩

/-- A settled project with documents has an up-to-date report on those of the workspace, of which
there are some. -/
def Current (e : Surroundings) (p : Project) : Prop :=
  p.isSettled = true → p.documents.all ≠ [] →
    p.inScope e.disk ≠ [] ∧ p.UpToDate e (p.inScope e.disk)

theorem current_of_unsettled (h : p.isSettled = false) : Current e p := by
  intro hsettled
  simp [h] at hsettled

/-- Writing to the log keeps a report up to date. -/
theorem Current.of_logged (h : Current e p) (hlogged : Logged p q) : Current e q := by
  rw [hlogged.same]
  exact h

/-! ### The board -/

/-- The keys of documents whose URIs are canonical are their URIs. -/
theorem keysOf_eq {wd : Path} {documents : List Source}
    (hcanonical : ∀ s ∈ documents, canonicalUri wd s.uri = .ok s.uri) :
    Board.keysOf wd documents = .ok (documents.map Source.uri) := by
  refine mapM_eq_ok_iff.2 ?_
  rw [List.map_map]
  exact List.map_congr_left fun s hs => mapError_eq_ok_iff.2 (hcanonical s hs)

/-- A report that can be shown is shown for its documents. -/
theorem shown_of_board {b b' : Board} {wd : Path} {report : Report} {documents : List Source}
    {notices : List Notice × List Notice} {located : List (String × Diagnostic)}
    (hcanonical : ∀ s ∈ documents, canonicalUri wd s.uri = .ok s.uri)
    (hnodup : (documents.map Source.uri).Nodup)
    (hlocated : Board.locate wd report.messages = .ok located)
    (h : b.showReport wd report documents = .ok (b', notices)) :
    b'.shown.entries = documents.map fun s => (s.uri, diagnosticsAt located s.uri) := by
  obtain ⟨located', hlocated', h⟩ := bind_eq_ok_iff.1 h
  obtain rfl := Except.ok.inj (hlocated.symm.trans hlocated')
  obtain ⟨keys, hkeys, h⟩ := bind_eq_ok_iff.1 h
  obtain rfl := Except.ok.inj ((keysOf_eq hcanonical).symm.trans hkeys)
  obtain ⟨rfl, -⟩ := Prod.mk.inj (pure_eq_ok_iff.1 h)
  rw [List.map_map]
  refine Keyed.entries_ofList ?_
  rwa [List.map_map]

/-- A report that cannot be shown has a message without a diagnostic. -/
theorem locate_ne_ok_of_board {b : Board} {wd : Path} {report : Report} {documents : List Source}
    {r : Refusal} {located : List (String × Diagnostic)}
    (hcanonical : ∀ s ∈ documents, canonicalUri wd s.uri = .ok s.uri)
    (h : b.showReport wd report documents = .error r) :
    Board.locate wd report.messages ≠ .ok located := by
  intro hlocated
  rcases bind_eq_error_iff.1 h with hr | ⟨located', -, h⟩
  · simp [hlocated] at hr
  · rcases bind_eq_error_iff.1 h with hr | ⟨keys, -, hpure⟩
    · simp [keysOf_eq hcanonical] at hr
    · exact pure_ne_error hpure

/-! ### Recompiling -/

/-- Which documents belong to the workspace depends on the sources and the workspace only. -/
theorem inScope_congr {disk : Disk} (hsources : q.documents.sources = p.documents.sources)
    (hworkspace : q.workspace = p.workspace) : q.inScope disk = p.inScope disk := by
  rw [inScope, Documents.all, hsources, hworkspace, inScope, Documents.all]

theorem together_congr (hlibraries : q.libraries = p.libraries) (documents : List Source) :
    q.together documents = p.together documents := by
  rw [together, librariesBeside, hlibraries, together, librariesBeside]

/-- What recompiling leaves as it was, and what it achieves if there is something to do. -/
structure Recompiled (e : Surroundings) (p q : Project) : Prop where
  tidy : q.Tidy e.disk
  sources : q.documents.sources = p.documents.sources
  changes : q.documents.changes = p.documents.changes
  settled : p.isSettled = true → q = p
  current : p.isSettled = false → Current e q

/-- A project whose documents were not touched is not settled afterwards either. -/
theorem Recompiled.of_same (hp : p.Tidy e.disk) (hopen : p.isSettled = false)
    (hdocuments : q.documents = p.documents) (hworkspace : q.workspace = p.workspace)
    (hlast : q.last? = p.last?) : Recompiled e p q where
  tidy := hp.of_same hdocuments hworkspace
  sources := by rw [hdocuments]
  changes := by rw [hdocuments]
  settled := fun hsettled => by simp [hopen] at hsettled
  current := fun _ => current_of_unsettled ((isSettled_congr hdocuments hlast).trans hopen)

theorem Recompiled.of_logged (hp : p.Tidy e.disk) (hopen : p.isSettled = false)
    (hlogged : Logged p q) : Recompiled e p q :=
  .of_same hp hopen hlogged.documents hlogged.workspace hlogged.last?

/-- A report that was taken over is up to date. -/
theorem ReportTaken.upToDate {documents : List Source} {report : Report} {noted : Keyed Nat}
    {mid : Project} {x : Except Refusal Unit}
    (hcanonical : ∀ s ∈ documents, canonicalUri e.disk.workingPath s.uri = .ok s.uri)
    (hnodup : (documents.map Source.uri).Nodup)
    (hresult : (e.compiler (mid.together documents)).result = .ok (.finished report))
    (h : ReportTaken e report documents noted mid q x) : q.UpToDate e documents := by
  have hlast : q.last? = some report := by rw [h.same]
  have htogether : q.together documents = mid.together documents :=
    together_congr (by rw [h.same]) documents
  refine ⟨report, ⟨hlast, htogether ▸ hresult⟩, ?_⟩
  intro located hlocated
  rcases h.shown with ⟨notices, -, hboard⟩ | ⟨r, -, -, hrefused⟩
  · exact shown_of_board hcanonical hnodup hlocated hboard
  · exact absurd hlocated (locate_ne_ok_of_board hcanonical hrefused)

/-- Recompiling leaves the sources as they are. There was nothing to do, or the report is up to date
afterwards, if the project is settled. -/
theorem recompiled_of_ends (hd : e.disk.Sane) (hp : p.Tidy e.disk)
    {x : Except Refusal (Option Outcome)} (h : Ends (recompile e) p x q) : Recompiled e p q := by
  cases recompilation_of_ends h with
  | settled hsettled =>
      exact ⟨hp, rfl, rfl, fun _ => rfl, fun hopen => by simp [hopen] at hsettled⟩
  | refused hopen _ => exact .of_same hp hopen rfl rfl rfl
  | empty hopen _ hlogged => exact .of_logged hp hopen hlogged
  | broken hopen _ _ _ _ hlogged => exact .of_logged hp hopen hlogged
  | fault hopen _ _ _ _ hlogged htaken =>
      refine .of_same hp hopen ?_ ?_ ?_
      · rw [htaken.same]
        exact hlogged.documents
      · rw [htaken.same]
        exact hlogged.workspace
      · rw [htaken.same]
        exact hlogged.last?
  | @finished _ mid documents report y hopen hdocuments hne hresult _ hlogged htaken =>
      obtain rfl := Except.ok.inj (hdocuments.symm.trans (hp.candidates hd))
      have hstruck : q.documents = p.documents.strikeUnchanged p.documents.dirty := by
        rw [htaken.same, ← hlogged.documents]
      have hsources : q.documents.sources = p.documents.sources := by
        rw [hstruck, Documents.strikeUnchanged]
      have hworkspace : q.workspace = p.workspace := by
        rw [htaken.same]
        exact hlogged.workspace
      have hchanges : q.documents.changes = p.documents.changes := by
        rw [hstruck, Documents.strikeUnchanged]
      have hkept : q.documents.Kept := by
        rw [hstruck]
        exact hp.kept.of_dirty (Documents.foldl_strikeStamp_sublist _ _)
      have htidy : q.Tidy e.disk := by
        refine ⟨hkept, ?_, hworkspace ▸ hp.roots⟩
        rw [Documents.Placed, hsources]
        exact hp.placed
      have hscope : q.inScope e.disk = p.inScope e.disk := inScope_congr hsources hworkspace
      have hmem : ∀ s ∈ p.inScope e.disk, s ∈ p.documents.all :=
        fun s hs => (List.mem_filter.1 hs).1
      refine ⟨htidy, hsources, hchanges, fun hsettled => by simp [hopen] at hsettled, ?_⟩
      intro _ _ _
      rw [hscope]
      refine ⟨hne, htaken.upToDate ?_ ?_ ?_⟩
      · exact fun s hs => (hp.placed_of_mem (hmem s hs)).canonical hd
      · exact hp.nodup_uris.sublist (List.filter_sublist.map Source.uri)
      · rwa [together_congr hlogged.libraries]

end Project

end Npl
