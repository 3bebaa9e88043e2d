import Npl.Proofs.Project.Addressees
import Npl.Proofs.Project.Scoping

/-!
# Compiling that fails

Compiling fails if it ends without a report: nothing has changed, no document belongs to the
workspace, the compiler breaks down or gives a fault, or something is refused. The project stays as
it is then, so that what waits is tried again, and a fault in the workspace is shown in its place.

There is one exception. A report is taken over before it is shown. If one of its messages has no
position in the protocol, showing it is refused, and nothing of it is shown; but the report is the
last one already and nothing waits any more, so that it is not tried again either. The compiler of
this library does not come to such a report, unless a document has as many characters as the
protocol can count.

## Main definitions

* `Project.Withheld` — the compiler comes to a report that cannot be shown.

## Main results

* `Project.withheld_of_recompile` — what recompiling comes to then.
* `Project.board_of_recompile` — what is shown when recompiling fails.
* `Project.kept_iff_of_serve` — a compilation that fails changes nothing, but in that case.
-/

namespace Npl.Project

open Npl.Project.Action

variable {e : Surroundings} {p q : Project}

/-! ### Reports that cannot be shown -/

/-- There is something to compile, and the compiler comes to a report about the documents of the
workspace, but one of its messages has no position in the protocol. -/
structure Withheld (e : Surroundings) (p : Project) (report : Report) : Prop where
  unsettled : p.isSettled = false
  compiles : ∃ documents, Compiles e p documents (.finished report)
  unplaced : ∃ m ∈ report.messages, ∃ f, m.toDiagnostic = .error f

/-- A report with a message that has no position is refused because of such a message. -/
theorem exists_place_of_showReport (d : Display) (wd : Path) {report : Report}
    (documents : List Source) {m : Message} (hm : m ∈ report.messages) {f : PlaceError}
    (hf : m.toDiagnostic = .error f) :
    ∃ f', d.showReport wd report documents = .error (.place f') := by
  cases hlocate : Board.locate wd report.messages with
  | ok located =>
      have hpair := List.mem_map_of_mem
        (f := fun m => m.toDiagnostic.mapError Refusal.place |>.map
          fun d => (m.location.toUri wd, d)) hm
      rw [mapM_eq_ok_iff.1 hlocate, hf] at hpair
      obtain ⟨pair, -, hpair⟩ := List.mem_map.1 hpair
      exact absurd hpair (by simp [Except.mapError, Except.map])
  | error r =>
      obtain ⟨m', -, hr⟩ := exists_of_mapM_eq_error hlocate
      obtain ⟨f', -, rfl⟩ := mapError_eq_error_iff.1 (map_eq_error_iff.1 hr)
      refine ⟨f', ?_⟩
      simp only [Display.showReport, Board.showReport, hlocate]
      rfl

/-- A report that cannot be shown is taken over nevertheless: nothing is shown, it is the last report
from then on, and nothing waits. -/
theorem withheld_of_recompile (hp : p.Orderly e) {report : Report} (hw : Withheld e p report)
    {x : Except Refusal (Option Outcome)} (h : Ends (recompile e) p x q) :
    (∃ f, x = .error (.place f)) ∧ q.display.board = p.display.board ∧
      q.last? = some report ∧ q.documents = { p.documents with dirty := .empty } := by
  obtain ⟨documents, hcompiles⟩ := hw.compiles
  obtain ⟨m, hm, f, hf⟩ := hw.unplaced
  cases recompilation_of_ends h with
  | settled hsettled => simp [hw.unsettled] at hsettled
  | refused _ hrefused => simp [hcompiles.inScope] at hrefused
  | empty _ hempty _ =>
      exact absurd (Except.ok.inj (hcompiles.inScope.symm.trans hempty)) hcompiles.some
  | @broken _ documents' cause _ hdocuments _ hresult _ _ =>
      obtain rfl := Except.ok.inj (hcompiles.inScope.symm.trans hdocuments)
      simp [hcompiles.result] at hresult
  | @fault _ mid documents' message y _ hdocuments hne hresult _ _ _ =>
      simpa using (hcompiles.unique ⟨hdocuments, hne, hresult⟩).2
  | @finished _ mid documents' report' y _ hdocuments hne hresult _ hlogged htaken =>
      obtain ⟨rfl, hsame⟩ := hcompiles.unique ⟨hdocuments, hne, hresult⟩
      obtain rfl := Outcome.finished.inj hsame
      obtain ⟨f', hrefused⟩ :=
        exists_place_of_showReport mid.display e.disk.workingPath documents hm hf
      have hboard := board_refuses_of_showReport hrefused
      rcases htaken.shown with ⟨notices, -, hshown⟩ | ⟨r, rfl, hsame, hr⟩
      · simp [hboard] at hshown
      obtain rfl := Except.error.inj (hr.symm.trans hboard)
      refine ⟨⟨f', rfl⟩, by rw [hsame, hlogged.board], by rw [htaken.same], ?_⟩
      -- What waited is what was noted before the compiler ran, so all of it is struck off.
      have hnone := hp.kept.strikeUnchanged_self
      have hstruck : q.documents = p.documents.strikeUnchanged p.documents.dirty := by
        rw [htaken.same, ← hlogged.documents]
      rw [hstruck, ← hnone]
      rfl

/-! ### What is kept -/

/-- Unless there is a report that cannot be shown, a compilation that fails leaves the documents,
what waits and the last report as they are. -/
theorem kept_of_recompile (hd : e.disk.Sane) (hp : p.Orderly e)
    (hshowable : ∀ report, ¬ Withheld e p report) {x : Except Refusal (Option Outcome)}
    (h : Ends (recompile e) p x q) (hfailed : ∀ report, x ≠ .ok (some (.finished report))) :
    q.documents = p.documents ∧ q.last? = p.last? := by
  cases recompilation_of_ends h with
  | settled | refused => exact ⟨rfl, rfl⟩
  | empty _ _ hlogged => exact ⟨hlogged.documents, hlogged.last?⟩
  | broken _ _ _ _ _ hlogged => exact ⟨hlogged.documents, hlogged.last?⟩
  | fault _ _ _ _ _ hlogged htaken =>
      rw [htaken.same]
      exact ⟨hlogged.documents, hlogged.last?⟩
  | @finished _ mid documents report y hopen hdocuments hne hresult _ _ htaken =>
      rcases htaken.shown with ⟨notices, rfl, -⟩ | ⟨r, -, -, hr⟩
      · exact absurd rfl (hfailed report)
      -- The documents have keys, so only a message can be the reason.
      have hkeys := keysOf_eq (hp.canonical_of_candidates hd hdocuments)
      obtain ⟨m, hm, f, hf, -⟩ := Board.place_of_showReport hkeys hr
      exact absurd ⟨hopen, ⟨documents, hdocuments, hne, hresult⟩, m, hm, f, hf⟩ (hshowable report)

/-- A fault is shown in its place if it lies in the workspace, and else nothing is. -/
theorem board_of_takeFault {message : Message} {x : Except Refusal Unit}
    (h : Ends (takeFault e message) p x q) :
    q.display.board = p.display.board ∨ ∃ d, Admits e p message d ∧ x = .ok () ∧
      q.display.board =
        ⟨p.display.board.shown.set (message.location.toUri e.disk.workingPath) [d]⟩ := by
  unfold takeFault say at h
  rw [ends_get_bind_iff, ends_answer_bind_iff] at h
  rcases h with ⟨r, -, -, rfl⟩ | ⟨inside, hinside, h⟩
  · exact .inl rfl
  split at h
  · next hyes =>
      subst hyes
      rw [ends_log_bind_iff, ends_onDisplay_iff] at h
      rcases h with ⟨r, -, -, rfl⟩ | ⟨display, hshow, rfl, rfl⟩
      · exact .inl rfl
      obtain ⟨board, notice, hboard, rfl, -⟩ := shown_of_showFault hshow
      obtain ⟨d, hd, hpure⟩ := bind_eq_ok_iff.1 hboard
      obtain ⟨hset, -⟩ := Prod.mk.inj (pure_eq_ok_iff.1 hpure)
      exact .inr ⟨d, ⟨hinside, mapError_eq_ok_iff.1 hd⟩, rfl, hset.symm⟩
  · obtain ⟨-, rfl⟩ := ends_log_iff.1 h
    exact .inl rfl

/-- What is shown when recompiling fails is what was shown before, but for a fault that the compiler
came to and that lies in the workspace. -/
theorem board_of_recompile {x : Except Refusal (Option Outcome)} (h : Ends (recompile e) p x q)
    (hfailed : ∀ report, x ≠ .ok (some (.finished report))) :
    q.display.board = p.display.board ∨ ∃ message d, x = .ok (some (.fault message)) ∧
      Admits e p message d ∧ q.display.board =
        ⟨p.display.board.shown.set (message.location.toUri e.disk.workingPath) [d]⟩ := by
  cases taking_of_recompile h with
  | idle hmute => exact .inl (by rw [hmute.same])
  | @takes documents outcome mid _ y _ hmute _ htake =>
  have hboard : mid.display.board = p.display.board := by rw [hmute.same]
  cases outcome with
  | fault message =>
      rcases board_of_takeFault htake with hsame | ⟨d, hadmits, rfl, hset⟩
      · exact .inl (hsame.trans hboard)
      · have halike : Alike p mid := .of_display (by rw [hmute.same])
        exact .inr ⟨message, d, rfl, hadmits.of_alike halike.symm, by rw [hset, hboard]⟩
  | finished report =>
      rcases (ends_takeReport htake).shown with ⟨notices, rfl, -⟩ | ⟨r, -, hsame, -⟩
      · exact absurd rfl (hfailed report)
      · exact .inl (by rw [hsame, hboard])

/-! ### Behind any history -/

/-- Behind any operations, whatever the compilers were, the documents are kept well under their
canonical URIs. -/
theorem orderly_serve {wd : Path} {ops : List (Surroundings × Operation)}
    (hops : ∀ o ∈ ops, o.1.disk.Sane ∧ o.1.disk.workingPath = wd)
    (hp : ∀ e : Surroundings, e.disk.workingPath = wd → p.Orderly e)
    (hwd : e.disk.workingPath = wd) : (serve p ops).Orderly e := by
  induction ops generalizing p with
  | nil => exact hp e hwd
  | cons o ops ih =>
      obtain ⟨hd, hsame⟩ := hops o List.mem_cons_self
      refine ih (fun o' ho' => hops o' (List.mem_cons_of_mem _ ho')) fun e' hwd' => ?_
      obtain ⟨hkept, hcanonical⟩ := orderly_of_ends hd (hp o.1 hsame)
        (show Ends (o.2.act o.1) p _ (o.2.act o.1 p).2 from rfl)
      exact ⟨hkept, by rw [hwd', ← hsame]; exact hcanonical⟩

/-- **Compiling that fails changes nothing, unless its report cannot be shown.** Behind any history
of a project, on disks and with compilers that may be other ones each time, compiling may end
without a report. The documents, what waits and the last report are what they were before exactly if
the compiler did not come to a report with a message that has no position in the protocol. If it
did, compiling is refused for that reason, the report is the last one, nothing waits, and compiling
again does nothing. What is shown is what was shown before in either case, but for a fault in the
workspace that the compiler came to, which is shown in its place. -/
theorem kept_iff_of_serve (connection : Connection) {wd : Path}
    {ops : List (Surroundings × Operation)}
    (hops : ∀ o ∈ ops, o.1.disk.Sane ∧ o.1.disk.workingPath = wd) (hd : e.disk.Sane)
    (hwd : e.disk.workingPath = wd) {x : Except Refusal (Option Outcome)}
    (h : Ends (recompile e) (serve (start connection) ops) x q)
    (hfailed : ∀ report, x ≠ .ok (some (.finished report))) :
    let p := serve (start connection) ops
    ((q.documents = p.documents ∧ q.last? = p.last?) ↔ ∀ report, ¬ Withheld e p report) ∧
    (∀ report, Withheld e p report → (∃ f, x = .error (.place f)) ∧ q.last? = some report ∧
      q.documents = { p.documents with dirty := .empty } ∧
      ∀ later, Ends (recompile later) q (.ok none) q) ∧
    (q.display.board = p.display.board ∨ ∃ message d, x = .ok (some (.fault message)) ∧
      Admits e p message d ∧
      q.display.board = ⟨p.display.board.shown.set (message.location.toUri wd) [d]⟩) := by
  intro p
  have hp : p.Orderly e := orderly_serve hops (fun _ _ => (orderly_start connection).1) hwd
  refine ⟨⟨fun ⟨hdocuments, hlast⟩ report hw => ?lost,
    fun hshowable => kept_of_recompile hd hp hshowable h hfailed⟩,
    fun report hw => ?withheld, hwd ▸ board_of_recompile h hfailed⟩
  case lost =>
    obtain ⟨-, -, hlast', hdocuments'⟩ := withheld_of_recompile hp hw h
    -- Nothing waits behind such a report, but something did before.
    have hsettled := isSettled_of_clean (congrArg Documents.dirty hdocuments') hlast'
    rw [isSettled_congr hdocuments hlast, hw.unsettled] at hsettled
    simp at hsettled
  case withheld =>
    obtain ⟨hrefused, -, hlast, hdocuments⟩ := withheld_of_recompile hp hw h
    have hsettled := isSettled_of_clean (congrArg Documents.dirty hdocuments) hlast
    exact ⟨hrefused, hlast, hdocuments, fun later => ends_recompile_of_settled hsettled⟩

/-! ### A report and a fault -/

/-- A report with an error beyond all lines that the protocol can count. -/
def farReport : Report :=
  .failure [Board.errorAt "a.npl" 2147483649] []

/-- An empty disk, and a compiler that comes to this report whatever it is given. -/
def farSighted : Surroundings :=
  ⟨Board.desk.disk, fun _ => ⟨[], .ok (.finished farReport)⟩⟩

/-- An empty disk, and a compiler that gives a fault whatever it is given. -/
def alwaysFaulty : Surroundings :=
  ⟨Board.desk.disk, fun _ => ⟨[], .ok (.fault (Board.errorAt "a.npl" 1))⟩⟩

/-- A document is opened, and is to be compiled later. -/
def opened : List (Surroundings × Operation) :=
  [(Board.desk, .update "file:///a.npl" "package a" false)]

/-- The project with this document, which waits for being compiled. -/
def openedProject : Project :=
  serve (start (.start .plain 30 false)) opened

/-- The report that cannot be shown is the last one, and the document waits no longer, although
nothing is shown for it. Behind the fault the document goes on waiting, and the fault is shown. -/
theorem kept_iff_of_serve_farReport :
    openedProject.documents.dirty.keys = ["file:///a.npl"] ∧ openedProject.last? = none ∧
    (∃ f q, Ends (recompile farSighted) openedProject (.error (.place f)) q ∧
      q.last? = some farReport ∧ q.documents.dirty = .empty ∧ q.display.board = .empty ∧
      Ends (recompile Board.desk) q (.ok none) q) ∧
    ∃ message q, Ends (recompile alwaysFaulty) openedProject (.ok (some (.fault message))) q ∧
      q.documents = openedProject.documents ∧ q.last? = none ∧
      q.display.board.shown.keys = ["file:///a.npl"] := by
  have hd : Board.desk.disk.Sane := ⟨by decide, by simp [Board.desk], by decide⟩
  have hops : ∀ o ∈ opened, o.1.disk.Sane ∧ o.1.disk.workingPath = Board.desk.disk.workingPath := by
    rintro o ho
    obtain rfl := List.mem_singleton.1 ho
    exact ⟨hd, rfl⟩
  have hnew : openedProject.last? = none := by decide +kernel
  refine ⟨by decide +kernel, hnew, ?report, ?fault⟩
  case report =>
    have hends : Ends (recompile farSighted) openedProject
        (recompile farSighted openedProject).1 (recompile farSighted openedProject).2 := rfl
    have hnone : (recompile farSighted openedProject).1.toOption = none := by decide +kernel
    have hfailed : ∀ report,
        (recompile farSighted openedProject).1 ≠ .ok (some (.finished report)) :=
      fun report hok => by simp [hok, Except.toOption] at hnone
    obtain ⟨-, hlost, -⟩ := kept_iff_of_serve (e := farSighted) (.start .plain 30 false) hops hd rfl
      hends hfailed
    have hfound : (openedProject.candidates farSighted).toOption =
        some [⟨"file:///a.npl", ⟨.single, ["a.npl"]⟩, "package a", false⟩] := by decide +kernel
    have hwithheld : Withheld farSighted openedProject farReport := {
      unsettled := by decide +kernel
      compiles := ⟨_, toOption_eq_some_iff.1 hfound, by simp, rfl⟩
      unplaced := ⟨_, List.mem_singleton_self _, _, rfl⟩ }
    obtain ⟨⟨f, hf⟩, hlast, hdocuments, hagain⟩ := hlost farReport hwithheld
    exact ⟨f, _, hf ▸ hends, hlast, by rw [hdocuments], by decide +kernel, hagain _⟩
  case fault =>
    have hx : (recompile alwaysFaulty openedProject).1 =
        .ok (some (.fault (Board.errorAt "a.npl" 1))) := toOption_eq_some_iff.1 (by decide +kernel)
    have hends : Ends (recompile alwaysFaulty) openedProject
        (.ok (some (.fault (Board.errorAt "a.npl" 1)))) (recompile alwaysFaulty openedProject).2 :=
      Prod.ext hx rfl
    obtain ⟨hkept, -, -⟩ := kept_iff_of_serve (e := alwaysFaulty) (.start .plain 30 false) hops hd
      rfl hends (by simp)
    have hshowable : ∀ report, ¬ Withheld alwaysFaulty openedProject report := by
      rintro report ⟨-, ⟨documents, hcompiles⟩, -⟩
      have hresult : (Except.ok (.fault (Board.errorAt "a.npl" 1)) : Except Cause Outcome) =
          .ok (.finished report) := hcompiles.result
      simp at hresult
    obtain ⟨hdocuments, hlast⟩ := hkept.2 hshowable
    exact ⟨_, _, hends, hdocuments, hlast.trans hnew, by decide +kernel⟩

end Npl.Project
