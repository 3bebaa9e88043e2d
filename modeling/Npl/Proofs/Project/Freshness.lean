import Mathlib.Data.List.Nodup
import Npl.Proofs.Project.Effect

/-!
# Freshness of the last report

A project that is settled answers with its last report and compiles nothing. So the report had better
be the one that compiling the documents of the workspace would give, and the board should show it.

It is and it does, with two exceptions. Other roots can bring in documents that were known before but
did not count, as links can lead to files outside the roots. Changing the roots stamps nothing, so
such a document stays without a report until something else is stamped. And a report that has a
message without a diagnostic is the last report, but it is not shown.

## Main definitions

* `Project.Reached` — the projects that operations lead to, and whether one lags behind its roots.

## Main results

* `Project.Reached.matches_iff` — the last report of a settled project is fresh, unless the project
  lags behind its roots or the report cannot be shown.
-/

namespace Npl.Project

open Npl.Project.Action

variable {e : Surroundings} {p q : Project} {lag : Prop}

/-! ### Runs -/

/-- Whether a project lags behind its roots after an operation, given whether it did before: other
roots have brought documents in, and since then it was settled and has kept its documents. -/
def Operation.Lags (e : Surroundings) (p : Project) (lag : Prop) (op : Operation) (q : Project) :
    Prop :=
  op.Widens e p ∨ lag ∧ q.isSettled = true ∧ q.documents = p.documents

/-- The projects that operations lead to from the start, and whether they lag behind their roots. -/
inductive Reached (e : Surroundings) : Project → Prop → Prop
  | start (connection : Connection) : Reached e (start connection) False
  | step {p q : Project} {lag : Prop} {op : Operation} {x : Except Refusal Unit}
      (h : Reached e p lag) (hnull : op.NullFree) (hends : Ends (op.act e) p x q) :
      Reached e q (op.Lags e p lag q)

/-- Wherever an operation leads is reached. -/
theorem Reached.act {op : Operation} (h : Reached e p lag) (hnull : op.NullFree) :
    Reached e (op.act e p).2 (op.Lags e p lag (op.act e p).2) :=
  h.step hnull (x := (op.act e p).1) rfl

/-- A settled project all documents of which belong to the workspace, although one of them is not
shown. -/
structure Lagging (e : Surroundings) (p : Project) : Prop where
  settled : p.isSettled = true
  some : p.documents.all ≠ []
  inside : ∀ s ∈ p.documents.all, p.workspace.contains e.disk s.location = .ok true
  unshown : p.Showable e → ∃ s ∈ p.documents.all, s.uri ∉ p.display.board.shown.keys

/-- What holds along a run. -/
structure Tracked (e : Surroundings) (p : Project) (lag : Prop) : Prop where
  tidy : p.Tidy e.disk
  current : ¬ lag → Current e p
  lagging : lag → Lagging e p

/-- A project without documents has nothing to keep up to date. -/
theorem tracked_start (e : Surroundings) (connection : Connection) :
    Tracked e (start connection) False where
  tidy := tidy_start e.disk connection
  current := fun _ _ hne => absurd rfl hne
  lagging := False.elim

/-! ### Steps -/

/-- If all documents belong to the workspace, those of the workspace are all. -/
theorem inScope_eq_all {disk : Disk}
    (h : ∀ s ∈ p.documents.all, p.workspace.contains disk s.location = .ok true) :
    p.inScope disk = p.documents.all :=
  List.filter_eq_self.2 fun s hs => isYes_eq_true_iff.2 (h s hs)

/-- A project goes on lagging when only roots change that all documents stay in. -/
theorem Lagging.of_logged {w : Workspace} (h : Lagging e p)
    (hlogged : Logged { p with workspace := w } q)
    (hin : ∀ s ∈ p.documents.all, w.contains e.disk s.location = .ok true) : Lagging e q := by
  rw [hlogged.same]
  exact ⟨h.settled, h.some, hin, h.unshown⟩

/-- A document that did not belong to the workspace is not shown by a report that was up to date. -/
theorem Current.unshown (hp : p.Tidy e.disk) (h : Current e p) (hsettled : p.isSettled = true)
    {s : Source} (hs : s ∈ p.documents.all)
    (hout : p.workspace.contains e.disk s.location = .ok false) (hshowable : p.Showable e) :
    s.uri ∉ p.display.board.shown.keys := by
  obtain ⟨-, hupToDate⟩ := h hsettled (List.ne_nil_of_mem hs)
  obtain ⟨report, located, -, -, hshows⟩ := hupToDate.matches_iff_showable.2 hshowable
  intro hmem
  rw [Keyed.keys, hshows, List.map_map] at hmem
  obtain ⟨t, ht, huri⟩ := List.mem_map.1 hmem
  obtain ⟨hall, hyes⟩ := List.mem_filter.1 ht
  obtain rfl : t = s := List.inj_on_of_nodup_map hp.nodup_uris hall hs huri
  simp [hout, isYes] at hyes

/-- Other roots that all documents are in leave a report up to date if all documents belonged to the
workspace before. -/
theorem Current.of_rescoped {w : Workspace} (h : Current e p)
    (hlogged : Logged { p with workspace := w } q)
    (hbefore : ∀ s ∈ p.documents.all, p.workspace.contains e.disk s.location = .ok true)
    (hin : ∀ s ∈ p.documents.all, w.contains e.disk s.location = .ok true) : Current e q := by
  rw [hlogged.same]
  intro hsettled hne
  obtain ⟨hscope, hupToDate⟩ := h hsettled hne
  have hsame : p.inScope e.disk = p.documents.all := inScope_eq_all hbefore
  rw [hsame] at hscope hupToDate
  rw [inScope_eq_all hin]
  exact ⟨hscope, hupToDate⟩

theorem Tracked.of_idle {op : Operation} (h : Tracked e p lag) (hno : ¬ op.Widens e p)
    (hlogged : Logged p q) : Tracked e q (op.Lags e p lag q) := by
  refine ⟨hlogged.tidy h.tidy, ?_, ?_⟩
  · intro hfresh
    by_cases hlag : lag
    · have hopen : q.isSettled = false := by
        rw [Bool.eq_false_iff]
        exact fun hsettled => hfresh (.inr ⟨hlag, hsettled, hlogged.documents⟩)
      exact current_of_unsettled hopen
    · exact (h.current hlag).of_logged hlogged
  · rintro (hwidens | ⟨hlag, -, -⟩)
    · exact absurd hwidens hno
    · have hlagging := h.lagging hlag
      exact hlagging.of_logged (w := p.workspace) hlogged hlagging.inside

/-- If other roots let all documents in, the project lags from then on, if it did before or one of
the documents did not belong to the workspace. -/
theorem Tracked.of_rescoped {uris : List String} (hd : e.disk.Sane) (h : Tracked e p lag)
    (hq : q.Tidy e.disk) (hsettled : p.isSettled = true)
    (hlogged : Logged { p with workspace := ⟨rootsOf uris⟩ } q)
    (hin : ∀ s ∈ p.documents.all, Workspace.contains ⟨rootsOf uris⟩ e.disk s.location = .ok true) :
    Tracked e q ((Operation.setRoots uris).Lags e p lag q) := by
  have hstill : q.isSettled = true :=
    (isSettled_congr hlogged.documents hlogged.last?).trans hsettled
  refine ⟨hq, ?_, ?_⟩
  · intro hfresh
    have hlag : ¬ lag := fun hlag => hfresh (.inr ⟨hlag, hstill, hlogged.documents⟩)
    refine (h.current hlag).of_rescoped hlogged ?_ hin
    intro s hs
    obtain ⟨b, hb⟩ := h.tidy.exists_contains hd hs
    cases b with
    | true => exact hb
    | false => exact absurd (.inl ⟨hsettled, hin, s, hs, hb⟩) hfresh
  · intro hlags
    by_cases hlag : lag
    · exact (h.lagging hlag).of_logged hlogged hin
    · rcases hlags with ⟨-, -, s, hs, hout⟩ | ⟨hbefore, -⟩
      · have hunshown : p.Showable e → ∃ s ∈ p.documents.all,
            s.uri ∉ p.display.board.shown.keys :=
          fun hshowable =>
            ⟨s, hs, (h.current hlag).unshown h.tidy hsettled hs hout hshowable⟩
        rw [hlogged.same]
        exact ⟨hsettled, List.ne_nil_of_mem hs, hin, hunshown⟩
      · exact absurd hbefore hlag

/-- What was stamped or replaced does not lag. -/
theorem Tracked.of_renewed {op : Operation} (h : Tracked e p lag) (hno : ¬ op.Widens e p)
    (hrenewed : Renewed e p q) : Tracked e q (op.Lags e p lag q) := by
  refine ⟨hrenewed.tidy, fun _ => hrenewed.current, ?_⟩
  rintro (hwidens | ⟨hlag, -, hdocuments⟩)
  · exact absurd hwidens hno
  · have hlagging := h.lagging hlag
    have hempty := hrenewed.changed hlagging.settled (by rw [hdocuments])
    rw [hdocuments] at hempty
    exact absurd hempty hlagging.some

/-- What holds along a run holds after another operation. -/
theorem Tracked.step {op : Operation} (hd : e.disk.Sane) (h : Tracked e p lag)
    (hnull : op.NullFree) {x : Except Refusal Unit} (hends : Ends (op.act e) p x q) :
    Tracked e q (op.Lags e p lag q) := by
  obtain ⟨hq, heffect⟩ := effect_of_ends hd h.tidy hnull hends
  cases heffect with
  | idle hno hlogged => exact h.of_idle hno hlogged
  | rescoped hsettled hlogged hin => exact h.of_rescoped hd hq hsettled hlogged hin
  | renewed hno hrenewed => exact h.of_renewed hno hrenewed

/-- What holds along a run holds at its end. -/
theorem Reached.tracked (hd : e.disk.Sane) (h : Reached e p lag) : Tracked e p lag := by
  induction h with
  | start connection => exact tracked_start e connection
  | step _ hnull hends ih => exact ih.step hd hnull hends

/-! ### Freshness -/

/-- A settled project with documents in the workspace has a report that compiling these documents
together with the libraries would give, and shows for each of them what the report says about it and
nothing else, exactly if the project does not lag behind its roots and the report can be shown. -/
theorem Reached.matches_iff (hd : e.disk.Sane) (h : Reached e p lag) (hsettled : p.isSettled = true)
    {documents : List Source} (hdocuments : p.candidates e = .ok documents)
    (hne : documents ≠ []) : p.Matches e documents ↔ ¬ lag ∧ p.Showable e := by
  have htracked := h.tracked hd
  obtain rfl := Except.ok.inj (hdocuments.symm.trans (htracked.tidy.candidates hd))
  obtain ⟨s, hs⟩ := List.exists_mem_of_ne_nil _ hne
  have hall : p.documents.all ≠ [] := List.ne_nil_of_mem (List.mem_filter.1 hs).1
  constructor
  · rintro ⟨report, located, hreported, hlocated, hshows⟩
    have hshowable : p.Showable e := ⟨report, located, hreported.1, hlocated⟩
    refine ⟨?_, hshowable⟩
    intro hlag
    have hlagging := htracked.lagging hlag
    obtain ⟨t, ht, hunshown⟩ := hlagging.unshown hshowable
    rw [inScope_eq_all hlagging.inside] at hshows
    refine hunshown ?_
    rw [Keyed.keys, hshows, List.map_map]
    exact List.mem_map_of_mem ht
  · rintro ⟨hlag, hshowable⟩
    obtain ⟨-, hupToDate⟩ := htracked.current hlag hsettled hall
    exact hupToDate.matches_iff_showable.2 hshowable

/-! ### A project that lags -/

/-- A disk on which the second of two directories holds a link to a file outside both. -/
def linkedDisk : Disk where
  workingDirectory := []
  entries := [
    (["one"], .directory),
    (["one", "a.npl"], .file (.bytes [])),
    (["two"], .directory),
    (["two", "b.npl"], .link "/b.npl"),
    (["b.npl"], .file (.bytes []))]

/-- That disk, and the compiler of this library. -/
def linked : Surroundings :=
  ⟨linkedDisk, .standard⟩

/-- The project after both directories were loaded. -/
def loaded : Project :=
  ((Operation.load ["file:///one", "file:///two"] []).act linked (start (.start .absent 30 false))).2

/-- The project after the roots were taken away, which lets everything in. -/
def widened : Project :=
  ((Operation.setRoots []).act linked loaded).2

theorem linkedDisk_sane : linkedDisk.Sane where
  names := by decide
  targets := by simp [linkedDisk, NullFree]
  workingDirectory := by decide

theorem nullFree_linked : (Operation.load ["file:///one", "file:///two"] []).NullFree := by
  have hone : Path.ofUri "file:///one" = .ok ⟨.single, ["one"]⟩ :=
    toOption_eq_some_iff.1 (by decide +kernel)
  have htwo : Path.ofUri "file:///two" = .ok ⟨.single, ["two"]⟩ :=
    toOption_eq_some_iff.1 (by decide +kernel)
  simp [Operation.NullFree, NullFreeUri, hone, htwo, Path.NullFree, NullFree]

/-- Loading does not make the project lag. -/
theorem reached_loaded : ∃ lag, Reached linked loaded lag ∧ ¬ lag := by
  refine ⟨_, (Reached.start _).act nullFree_linked, ?_⟩
  rintro (hwidens | ⟨hlag, -⟩)
  · exact hwidens
  · exact hlag

/-- The link counts as soon as there are no roots. -/
theorem widens_loaded : (Operation.setRoots []).Widens linked loaded := by
  refine ⟨by decide +kernel, fun _ _ => rfl, ?_⟩
  have hout : ∃ s ∈ loaded.documents.all,
      (loaded.workspace.contains linkedDisk s.location).toOption = some false := by
    decide +kernel
  obtain ⟨s, hs, hout⟩ := hout
  exact ⟨s, hs, toOption_eq_some_iff.1 hout⟩

theorem reached_widened : ∃ lag, Reached linked widened lag ∧ lag := by
  obtain ⟨lag, hloaded, -⟩ := reached_loaded
  exact ⟨_, hloaded.act (by simp [Operation.NullFree]), .inl widens_loaded⟩

/-- The report is fresh after loading, and it is not fresh any more when there are no roots. -/
theorem Reached.matches_iff_linked :
    (loaded.isSettled = true ∧ ∃ documents, loaded.candidates linked = .ok documents ∧
      documents ≠ [] ∧ loaded.Matches linked documents) ∧
    widened.isSettled = true ∧ ∃ documents, widened.candidates linked = .ok documents ∧
      documents ≠ [] ∧ ¬ widened.Matches linked documents := by
  obtain ⟨lag, hloaded, hfresh⟩ := reached_loaded
  obtain ⟨lag', hwidened, hlag⟩ := reached_widened
  have hd : linked.disk.Sane := linkedDisk_sane
  have hsettled : loaded.isSettled = true := by decide +kernel
  have hsettled' : widened.isSettled = true := by decide +kernel
  have hcandidates := (hloaded.tracked hd).tidy.candidates hd
  have hcandidates' := (hwidened.tracked hd).tidy.candidates hd
  have hne : loaded.inScope linked.disk ≠ [] := by decide +kernel
  have hne' : widened.inScope linked.disk ≠ [] := by decide +kernel
  have hshowable : loaded.Showable linked := by decide +kernel
  have hmatches := (hloaded.matches_iff hd hsettled hcandidates hne).2 ⟨hfresh, hshowable⟩
  have hlags : ¬ widened.Matches linked (widened.inScope linked.disk) := fun hmatches =>
    ((hwidened.matches_iff hd hsettled' hcandidates' hne').1 hmatches).1 hlag
  exact ⟨⟨hsettled, _, hcandidates, hne, hmatches⟩, hsettled', _, hcandidates', hne', hlags⟩

end Npl.Project
