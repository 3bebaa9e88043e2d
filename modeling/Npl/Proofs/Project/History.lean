import Npl.Proofs.Project.CaughtUp
import Npl.Proofs.Project.InStep

/-!
# Histories of a project

A project goes through one operation after another, and the disk may be another one each time. Some
operations are refused half-way. What every operation keeps holds throughout such a history if it
holds at the start.

## Main definitions

* `Project.Lived` — the projects that operations lead to, on a disk that changes meanwhile.

## Main results

* `Project.Lived.orderly`, `Project.Lived.faithful` — the documents are kept well under canonical
  URIs, and the editor shows what the board holds.
-/

namespace Npl.Project

open Npl.Project.Action

variable {e : Surroundings} {p q : Project} {op : Operation}

/-! ### Documents under canonical URIs -/

/-- Being orderly afterwards if one was before. -/
instance isPreorder_orderly (e : Surroundings) :
    IsPreorder Project fun p q => p.Orderly e → q.Orderly e where
  refl _ := id
  trans _ _ _ h h' := h' ∘ h

theorem orderly_recompile (hd : e.disk.Sane) :
    Respects (fun p q => p.Orderly e → q.Orderly e) (recompile e) := by
  intro p x q h hp
  cases hopen : p.isSettled with
  | false => exact (caughtUp_of_recompile hd hp (.inl hopen) h).1
  | true =>
      cases recompilation_of_ends h with
      | settled => exact hp
      | refused hunsettled | empty hunsettled | broken hunsettled | fault hunsettled
      | finished hunsettled => simp [hopen] at hunsettled

/-- Canonical sources that replace all documents are kept well under their URIs. -/
theorem orderly_replaceAll (hd : e.disk.Sane) (d : Documents) {sources : List Source}
    (hsources : ∀ s ∈ sources, s.Canonical e.disk.workingPath)
    (hq : q.documents = (d.replaceAll e.disk.workingPath sources).1) : q.Orderly e := by
  refine ⟨?_, ?_⟩
  · rw [hq]
    exact (Documents.kept_cleared _).putAll _ _
  · rw [hq]
    exact (Documents.Canonical.putAll hd (d := { d with sources := .empty, dirty := .empty })
      (by simp [Documents.Canonical, Keyed.empty]) hsources).2

/-- What is found on the disk is canonical, whatever the roots. -/
theorem canonical_of_found (hd : e.disk.Sane) {uris : List String} {sources : List Source}
    (hsources : (discover e.disk (rootsOf uris)).1 = .ok sources) :
    ∀ s ∈ sources, s.Canonical e.disk.workingPath :=
  fun _ hs => canonical_of_mem_discover hd (fun _ hroot => normal_of_mem_rootsOf hroot) hsources hs

/-- Every operation keeps the documents orderly. -/
theorem orderly_of_ends (hd : e.disk.Sane) (hp : p.Orderly e) {x : Except Refusal Unit}
    (h : Ends (op.act e) p x q) : q.Orderly e := by
  have hparts : op.Parts e fun p q => p.Orderly e → q.Orderly e := {
    log := fun r => .log (fun p q h hp => hp.of_same h.documents) r
    forget := fun uri p x q h hp => by
      rcases x with r | u
      · rwa [eq_of_forget_refused h]
      · exact (orderly_of_forget hp h).1
    retract := fun uri p x q h hp => by
      rcases retract_cases h with ⟨-, -, -, rfl⟩ | ⟨-, -, -, hq, -⟩
      · exact hp
      · exact hp.of_same (by rw [hq])
    recompile := orderly_recompile hd
    text := fun uri content _ _ path hpath hsource p hp =>
      orderly_of_documentsUpdate hp content hpath hsource
    roots := fun uris _ p hp => hp.of_same rfl
    found := fun uris references _ sources hsources p _ =>
      orderly_replaceAll hd p.documents (canonical_of_found hd hsources) rfl
    libraries := fun uris references _ libraries _ p hp => hp.of_same rfl }
  exact hparts.respects.related h hp

/-- The documents of a tidy project are kept well under canonical URIs. -/
theorem Tidy.orderly (h : p.Tidy e.disk) : p.Orderly e :=
  ⟨h.kept, fun entry hentry =>
    ⟨(h.placed entry hentry).named, (h.placed entry hentry).normal⟩⟩

/-- The key of a document of the workspace is its canonical URI. -/
theorem Orderly.mem_keys (hd : e.disk.Sane) (hp : p.Orderly e) {documents : List Source}
    (hdocuments : p.candidates e = .ok documents) {s : Source} (hs : s ∈ documents) :
    canonicalUri e.disk.workingPath s.uri = .ok s.uri ∧ s.uri ∈ p.documents.sources.keys := by
  refine ⟨hp.canonical_of_candidates hd hdocuments s hs, ?_⟩
  obtain ⟨entry, hentry, rfl⟩ := List.mem_map.1 (mem_all_of_candidates hdocuments hs)
  rw [hp.kept.named entry hentry]
  exact List.mem_map_of_mem hentry

/-- The key of any document is its own canonical spelling. -/
theorem Orderly.canonicalUri_key (hd : e.disk.Sane) (hp : p.Orderly e) {key : String}
    (hkey : key ∈ p.documents.sources.keys) :
    canonicalUri e.disk.workingPath key = .ok key := by
  obtain ⟨entry, hentry, rfl⟩ := List.mem_map.1 hkey
  rw [← hp.kept.named entry hentry]
  exact (hp.canonical entry hentry).eq hd

/-! ### Histories -/

/-- The projects that operations lead to from the start, with one editor and the compiler of this
library. The disk may be another one for each operation, as long as the working directory stays. -/
inductive Lived (client : Client) (wd : Path) : Project → Prop
  | start (topLevel : Nat) (forwarding : Bool) :
      Lived client wd (start (.start client topLevel forwarding))
  | step {disk : Disk} {p q : Project} {op : Operation} {x : Except Refusal Unit}
      (h : Lived client wd p) (hd : disk.Sane) (hwd : disk.workingPath = wd)
      (hends : Ends (op.act ⟨disk, .standard⟩) p x q) : Lived client wd q

namespace Lived

variable {client : Client} {wd : Path}

/-- Wherever an operation leads is lived. -/
theorem act {disk : Disk} (h : Lived client wd p) (hd : disk.Sane) (hwd : disk.workingPath = wd)
    (op : Operation) : Lived client wd (op.act ⟨disk, .standard⟩ p).2 :=
  h.step hd hwd (show Ends (op.act ⟨disk, .standard⟩) p _ _ from rfl)

/-- Whatever disk there is next, the documents are kept well under their canonical URIs. -/
theorem orderly (h : Lived client wd p) (e : Surroundings) (hwd : e.disk.workingPath = wd) :
    p.Orderly e := by
  induction h generalizing e with
  | start topLevel forwarding => exact (orderly_start _).1
  | @step disk p q op x h hd hwd' hends ih =>
      obtain ⟨hkept, hcanonical⟩ := orderly_of_ends hd (ih ⟨disk, .standard⟩ hwd') hends
      exact ⟨hkept, by rw [hwd, ← hwd']; exact hcanonical⟩

/-- The editor shows what the board holds. -/
theorem faithful (h : Lived client wd p) : Board.Faithful client p := by
  induction h with
  | start topLevel forwarding => exact Board.faithful_start _ _ _
  | step h hd hwd hends ih => exact InStep.keeps hends ih (inStep_operation _)

end Lived

end Npl.Project
