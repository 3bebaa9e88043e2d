import Npl.Proofs.Project.Alike
import Npl.Proofs.Project.Canonical

/-!
# Projects that have caught up

A project has caught up if compiling what it holds now would tell nothing new: if that gives a
report, the report is the last one, nothing waits, and the board shows it. Where compiling gives no
report, be it because no document belongs to the workspace or because the compiler gives up, there
is nothing to catch up with. Recompiling catches up, whether or not it is refused, and every change
to a document but an edit recompiles.

Documents may have null characters in their paths here: whether they belong to the workspace is then
refused, and so is compiling, until they are gone.

## Main definitions

* `Project.Orderly` — documents are kept well under their canonical URIs.
* `Project.CaughtUp` — compiling would tell nothing new.
* `Project.Tended` — a project has caught up, or only the log was written to.

## Main results

* `Project.caughtUp_of_recompile` — recompiling catches up.
* `Project.tended_of_update`, `Project.tended_of_remove`, `Project.tended_of_close` — changes to
  documents.
-/

namespace Npl

namespace Project

open Npl.Project.Action

variable {e : Surroundings} {p q s : Project}

/-- The documents are kept well, under their canonical URIs. -/
structure Orderly (e : Surroundings) (p : Project) : Prop where
  kept : p.documents.Kept
  canonical : p.documents.Canonical e.disk.workingPath

theorem Orderly.of_same (h : p.Orderly e) (hdocuments : q.documents = p.documents) : q.Orderly e :=
  ⟨hdocuments ▸ h.kept, hdocuments ▸ h.canonical⟩

/-- The documents of the workspace are among all documents. -/
theorem mem_all_of_candidates {documents : List Source} (h : p.candidates e = .ok documents)
    {s : Source} (hs : s ∈ documents) : s ∈ p.documents.all := by
  obtain ⟨-, rfl⟩ := filterM_eq_ok_iff.1 h
  exact (List.mem_filter.1 hs).1

namespace Orderly

variable {documents : List Source}

/-- The documents of the workspace are canonical. -/
theorem canonical_of_candidates (hd : e.disk.Sane) (h : p.Orderly e)
    (hdocuments : p.candidates e = .ok documents) :
    ∀ s ∈ documents, canonicalUri e.disk.workingPath s.uri = .ok s.uri := by
  intro s hs
  obtain ⟨entry, hentry, rfl⟩ := List.mem_map.1 (mem_all_of_candidates hdocuments hs)
  exact (h.canonical entry hentry).eq hd

/-- The documents of the workspace have distinct URIs. -/
theorem nodup_of_candidates (h : p.Orderly e) (hdocuments : p.candidates e = .ok documents) :
    (documents.map Source.uri).Nodup := by
  obtain ⟨-, rfl⟩ := filterM_eq_ok_iff.1 hdocuments
  exact h.kept.nodup_uris.sublist (List.filter_sublist.map Source.uri)

end Orderly

/-! ### Catching up -/

/-- If compiling the documents gives a report, it is the last one, nothing waits, and the board
shows the report if it can be shown. -/
def CaughtUp (e : Surroundings) (p : Project) : Prop :=
  ∀ documents report, p.candidates e = .ok documents → documents ≠ [] →
    (e.compiler (p.together documents)).result = .ok (.finished report) →
      p.documents.dirty = .empty ∧ p.last? = some report ∧
        ∀ located, Board.locate e.disk.workingPath report.messages = .ok located →
          p.Shows documents located

/-- Writing to the log does not matter. -/
theorem CaughtUp.of_logged (h : CaughtUp e p) (hlogged : Logged p q) : CaughtUp e q := by
  rw [hlogged.same]
  exact h

/-- Recompiling catches up, unless nothing waits, and leaves the project alike. -/
theorem caughtUp_of_recompile (hd : e.disk.Sane) (hp : p.Orderly e)
    (h : p.isSettled = false ∨ CaughtUp e p) {x : Except Refusal (Option Outcome)}
    (hends : Ends (recompile e) p x q) : q.Orderly e ∧ Alike p q ∧ CaughtUp e q := by
  have halike := alike_of_recompile hends
  cases recompilation_of_ends hends with
  | settled hsettled =>
      refine ⟨hp, halike, h.resolve_left ?_⟩
      simp [hsettled]
  | refused _ hrefused =>
      refine ⟨hp, halike, ?_⟩
      intro documents report hdocuments
      simp [hrefused] at hdocuments
  | empty _ hempty hlogged =>
      refine ⟨hp.of_same hlogged.documents, halike, ?_⟩
      intro documents report hdocuments hne
      rw [halike.candidates, hempty] at hdocuments
      exact absurd (Except.ok.inj hdocuments).symm hne
  | @broken _ documents cause _ hdocuments _ hresult _ hlogged =>
      refine ⟨hp.of_same hlogged.documents, halike, ?_⟩
      intro documents' report hdocuments' _ hreport
      rw [halike.candidates, hdocuments] at hdocuments'
      obtain rfl := Except.ok.inj hdocuments'
      rw [halike.together, hresult] at hreport
      simp at hreport
  | @fault _ mid documents message y _ hdocuments _ hresult _ hlogged htaken =>
      have hsame : q.documents = p.documents := by rw [htaken.same, ← hlogged.documents]
      refine ⟨hp.of_same hsame, halike, ?_⟩
      intro documents' report hdocuments' _ hreport
      rw [halike.candidates, hdocuments] at hdocuments'
      obtain rfl := Except.ok.inj hdocuments'
      rw [halike.together, hresult] at hreport
      simp at hreport
  | @finished _ mid documents report y _ hdocuments hne hresult _ hlogged htaken =>
      have hstruck : q.documents = p.documents.strikeUnchanged p.documents.dirty := by
        rw [htaken.same, ← hlogged.documents]
      have hkept : q.documents.Kept := by
        rw [hstruck]
        exact hp.kept.of_dirty (Documents.foldl_strikeStamp_sublist _ _)
      have hcanonical : q.documents.Canonical e.disk.workingPath := by
        rw [Documents.Canonical, halike.sources]
        exact hp.canonical
      have hlast : q.last? = some report := by rw [htaken.same]
      have hresult' : (e.compiler (mid.together documents)).result = .ok (.finished report) := by
        rw [hlogged.alike.together]
        exact hresult
      obtain ⟨report', ⟨hlast', -⟩, hshown⟩ := htaken.upToDate
        (hp.canonical_of_candidates hd hdocuments) (hp.nodup_of_candidates hdocuments) hresult'
      obtain rfl := Option.some.inj (hlast.symm.trans hlast')
      refine ⟨⟨hkept, hcanonical⟩, halike, ?_⟩
      intro documents' report' hdocuments' _ hreport
      rw [halike.candidates, hdocuments] at hdocuments'
      obtain rfl := Except.ok.inj hdocuments'
      rw [halike.together, hresult] at hreport
      obtain rfl := Outcome.finished.inj (Except.ok.inj hreport)
      exact ⟨hstruck ▸ hp.kept.strikeUnchanged_self, hlast, hshown⟩

/-- Clearing the diagnostics of a document that is not there does not matter. -/
theorem CaughtUp.of_retract (h : CaughtUp e p) {uri key : String}
    (hkey : canonicalUri e.disk.workingPath uri = .ok key)
    (hnone : ∀ s ∈ p.documents.all, s.uri ≠ key) {x : Except Refusal Unit}
    (hends : Ends (retract e uri) p x q) : CaughtUp e q := by
  rcases retract_cases hends with ⟨r, -, -, rfl⟩ | ⟨key', hkey', -, hq, hboard⟩
  · exact h
  obtain rfl := Except.ok.inj (hkey.symm.trans hkey')
  have halike : Alike p q := .of_display hq
  intro documents report hdocuments hne hreport
  rw [halike.candidates] at hdocuments
  rw [halike.together] at hreport
  obtain ⟨hdirty, hlast, hshown⟩ := h documents report hdocuments hne hreport
  refine ⟨by rw [hq]; exact hdirty, by rw [hq]; exact hlast, ?_⟩
  intro located hlocated
  rw [Shows, hboard, Keyed.erase, hshown located hlocated]
  refine List.filter_eq_self.2 ?_
  intro entry hentry
  obtain ⟨s, hs, rfl⟩ := List.mem_map.1 hentry
  exact decide_eq_true (hnone s (mem_all_of_candidates hdocuments hs))

/-! ### Tended projects -/

/-- The project is orderly, and it has caught up, or only the log was written to since. -/
structure Tended (e : Surroundings) (p q : Project) : Prop where
  orderly : q.Orderly e
  caughtUp : CaughtUp e q ∨ Logged p q

namespace Tended

theorem of_logged (hp : p.Orderly e) (h : Logged p q) : Tended e p q :=
  ⟨hp.of_same h.documents, .inr h⟩

/-- One thing after another. -/
theorem trans (h : Tended e p q) (h' : Tended e q s) : Tended e p s := by
  refine ⟨h'.orderly, ?_⟩
  rcases h'.caughtUp with hcaught | hlogged'
  · exact .inl hcaught
  · rcases h.caughtUp with hcaught | hlogged
    · exact .inl (hcaught.of_logged hlogged')
    · exact .inr (hlogged.trans hlogged')

/-- What has caught up stays so, and what waits goes on waiting or has caught up. -/
theorem waiting (h : Tended e p q) {c : Prop} (hp : p.isSettled = false ∧ c ∨ CaughtUp e p) :
    q.isSettled = false ∧ c ∨ CaughtUp e q := by
  rcases h.caughtUp with hcaught | hlogged
  · exact .inr hcaught
  · refine hp.imp (fun ⟨hopen, hc⟩ => ⟨?_, hc⟩) fun hcaught => hcaught.of_logged hlogged
    exact (isSettled_congr hlogged.documents hlogged.last?).trans hopen

/-- What has caught up stays so. -/
theorem caughtUp_of_caughtUp (h : Tended e p q) (hp : CaughtUp e p) : CaughtUp e q := by
  rcases h.waiting (c := False) (.inr hp) with ⟨-, hfalse⟩ | hcaught
  · exact hfalse.elim
  · exact hcaught

end Tended

/-- Recompiling what has to be compiled. -/
theorem tended_of_recompile (hd : e.disk.Sane) {mid : Project} (hmid : mid.Orderly e)
    (hopen : mid.isSettled = false) {x : Except Refusal (Option Outcome)}
    (h : Ends (recompile e) mid x q) : Tended e p q := by
  obtain ⟨hq, -, hcaught⟩ := caughtUp_of_recompile hd hmid (.inl hopen) h
  exact ⟨hq, .inl hcaught⟩

/-- Forgetting a document keeps the others orderly. -/
theorem orderly_of_forget (hp : p.Orderly e) {uri : String} (h : Ends (forget e uri) p (.ok ()) q) :
    q.Orderly e ∧ ∃ key, canonicalUri e.disk.workingPath uri = .ok key ∧
      ∀ s ∈ q.documents.all, s.uri ≠ key := by
  rcases forget_cases h with ⟨r, -, hx, -⟩ | ⟨key, hkey, -, rfl⟩
  · simp at hx
  · refine ⟨⟨hp.kept.removeKey key, hp.canonical.removeKey key⟩, key, hkey, ?_⟩
    exact fun s hs => hp.kept.uri_ne_of_removeKey hs

/-- A document that cannot be forgotten is left alone. -/
theorem eq_of_forget_refused {uri : String} {r : Refusal} (h : Ends (forget e uri) p (.error r) q) :
    q = p := by
  rcases forget_cases h with ⟨-, -, -, hq⟩ | ⟨key, -, hx, -⟩
  · exact hq
  · simp at hx

/-- Removing a document. -/
theorem tended_of_remove (hd : e.disk.Sane) (hp : p.Orderly e) {uri : String}
    {x : Except Refusal Unit} (h : Ends (remove e uri) p x q) : Tended e p q := by
  unfold remove at h
  rcases ends_bind_iff.1 h with ⟨r, hr, -⟩ | ⟨u, mid, hforget, h⟩
  · rw [eq_of_forget_refused hr]
    exact .of_logged hp (.refl p)
  obtain ⟨hmid, key, hkey, hothers⟩ := orderly_of_forget hp hforget
  have hopen := unsettled_of_forget hforget
  rcases ends_bind_iff.1 h with ⟨r, hr, -⟩ | ⟨u', mid', hdiscard, hretract⟩
  · obtain ⟨y, hrecompile, -⟩ := ends_discard_iff.1 hr
    exact tended_of_recompile hd hmid hopen hrecompile
  · obtain ⟨y, hrecompile, -⟩ := ends_discard_iff.1 hdiscard
    obtain ⟨hmid', halike, hcaught⟩ := caughtUp_of_recompile hd hmid (.inl hopen) hrecompile
    have hnone : ∀ s ∈ mid'.documents.all, s.uri ≠ key := by
      rw [halike.all]
      exact hothers
    refine ⟨?_, .inl (hcaught.of_retract hkey hnone hretract)⟩
    rcases retract_cases hretract with ⟨-, -, -, rfl⟩ | ⟨-, -, -, hq, -⟩
    · exact hmid'
    · exact hmid'.of_same (by rw [hq])

/-- Dropping a document that left the workspace. -/
theorem tended_of_dropOutside (hd : e.disk.Sane) (hp : p.Orderly e) {uri : String}
    {x : Except Refusal Unit} (h : Ends (dropOutside e uri) p x q) : Tended e p q := by
  unfold dropOutside say at h
  rw [ends_get_bind_iff, ends_answer_bind_iff] at h
  rcases h with ⟨r, -, -, rfl⟩ | ⟨known, -, h⟩
  · exact .of_logged hp (.refl _)
  split at h
  · rw [ends_log_bind_iff] at h
    have hlogged := Logged.log p (.ofPart "service" Level.info
      ("Document " ++ uri ++ " is outside the workspace, dropping it"))
    have hlog := hp.of_same hlogged.documents
    rcases ends_bind_iff.1 h with ⟨r, hr, -⟩ | ⟨u, forgotten, hforget, h⟩
    · rw [eq_of_forget_refused hr]
      exact .of_logged hp hlogged
    obtain ⟨hforgotten, key, hkey, hothers⟩ := orderly_of_forget hlog hforget
    have hopen := unsettled_of_forget hforget
    rcases ends_bind_iff.1 h with ⟨r, hr, -⟩ | ⟨u', mid, hretract, hdiscard⟩
    · -- The URI makes sense, since the document was forgotten by it.
      rcases retract_cases hr with ⟨r', hr', -, -⟩ | ⟨key', -, hx, -⟩
      · simp [hkey] at hr'
      · simp at hx
    · obtain ⟨y, hrecompile, -⟩ := ends_discard_iff.1 hdiscard
      have hmid : mid.documents = forgotten.documents := by
        rcases retract_cases hretract with ⟨-, -, -, rfl⟩ | ⟨-, -, -, hq, -⟩
        · rfl
        · rw [hq]
      exact tended_of_recompile hd (hforgotten.of_same hmid)
        ((isSettled_of_retract hretract).trans hopen) hrecompile
  · obtain ⟨-, rfl⟩ := ends_pure_iff.1 h
    exact .of_logged hp (.refl _)

/-- Taking over the text of a source file keeps the documents orderly. -/
theorem orderly_of_documentsUpdate (hp : p.Orderly e) {uri : String} (content : String)
    {path : Path} (hpath : Path.ofUri uri = .ok path) (hsource : path.isSource = true) :
    ({ p with documents := (p.documents.update e.disk.workingPath uri content).1 } :
      Project).Orderly e := by
  rw [Documents.update_of_isSource hpath hsource]
  exact ⟨hp.kept.put _ _, hp.canonical.put ⟨rfl, Path.normal_of_ofUri hpath⟩⟩

/-- Taking over the text of a document. If compiling is put off and the text was taken over,
something waits from there on. -/
theorem tended_of_update (hd : e.disk.Sane) (hp : p.Orderly e) {uri content : String}
    {compileNow : Bool} {x : Except Refusal Bool}
    (h : Ends (update e uri content compileNow) p x q) :
    Tended e p q ∨
      compileNow = false ∧ x = .ok true ∧ q.Orderly e ∧ q.isSettled = false := by
  unfold update at h
  split at h
  · unfold say at h
    rw [ends_log_bind_iff] at h
    obtain ⟨-, rfl⟩ := ends_pure_iff.1 h
    exact .inl (.of_logged hp (.log p _))
  next path hpath =>
    split at h
    · obtain ⟨-, rfl⟩ := ends_pure_iff.1 h
      exact .inl (.of_logged hp (.refl _))
    next hsource =>
      rw [ends_get_bind_iff, ends_answer_bind_iff] at h
      rcases h with ⟨r, -, -, rfl⟩ | ⟨inside, -, h⟩
      · exact .inl (.of_logged hp (.refl _))
      split at h
      · unfold onDocuments at h
        rw [ends_modify_bind_iff] at h
        have hsource : path.isSource = true := by simpa using hsource
        have hmid := orderly_of_documentsUpdate hp content hpath hsource
        have hopen := unsettled_of_documentsUpdate p e.disk.workingPath content hpath hsource
        split at h
        · obtain ⟨y, hdiscard, -⟩ := ends_bind_pure_iff.1 h
          obtain ⟨y', hrecompile, -⟩ := ends_discard_iff.1 hdiscard
          exact .inl (tended_of_recompile hd hmid hopen hrecompile)
        · next hlater =>
            obtain ⟨rfl, rfl⟩ := ends_pure_iff.1 h
            exact .inr ⟨by simpa using hlater, rfl, hmid, hopen⟩
      · obtain ⟨y, hdrop, -⟩ := ends_bind_pure_iff.1 h
        exact .inl (tended_of_dropOutside hd hp hdrop)

/-- Closing a document. -/
theorem tended_of_close (hd : e.disk.Sane) (hp : p.Orderly e) {uri : String}
    {x : Except Refusal Bool} (h : Ends (close e uri) p x q) : Tended e p q := by
  rcases close_cases h with rfl | ⟨y, hremove, -⟩
  · exact .of_logged hp (.refl _)
  · exact tended_of_remove hd hp hremove

/-! ### The first load -/

/-- A project without documents has caught up. -/
theorem orderly_start (connection : Connection) :
    (start connection).Orderly e ∧ CaughtUp e (start connection) := by
  refine ⟨⟨Documents.kept_cleared 0, by simp [Documents.Canonical, start, Documents.empty,
    Keyed.empty]⟩, ?_⟩
  intro documents report hdocuments hne
  obtain rfl := Except.ok.inj ((show (start connection).candidates e = .ok [] from rfl).symm.trans
    hdocuments)
  exact absurd rfl hne

end Project

end Npl
