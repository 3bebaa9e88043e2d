import Npl.Proofs.Project.Action

/-!
# What recompiling comes to

Recompiling a project can end in six ways, and each says what has changed. Everything else about
recompiling follows from these cases, so nothing behind this module opens its definition again.

## Main definitions

* `Project.Ran` — the compiler was run on sources.
* `Project.Recompilation` — the ways in which recompiling ends.

## Main results

* `Project.recompilation_of_ends` — recompiling ends in one of these ways.
-/

namespace Npl.Project

open Npl.Project.Action

variable {e : Surroundings} {p q : Project}

/-! ### Running the compiler -/

/-- The compiler was run on the given sources between two projects. -/
def Ran (sources : List Source) (p q : Project) : Prop :=
  ∃ earlier, p.display.connection.journal ++ earlier ++ [.compile (sources.map Source.location)] <+:
    q.display.connection.journal

theorem Ran.trans {sources : List Source} {p q s : Project} (h : Ran sources p q)
    (hjournal : q.display.connection.journal <+: s.display.connection.journal) :
    Ran sources p s := by
  obtain ⟨earlier, hearlier⟩ := h
  exact ⟨earlier, hearlier.trans hjournal⟩

theorem Ran.of_logged {sources : List Source} {p q s : Project} (hlogged : Logged p q)
    (h : Ran sources q s) : Ran sources p s := by
  obtain ⟨earlier, hearlier⟩ := h
  obtain ⟨records, hrecords⟩ := hlogged.journal
  refine ⟨records ++ earlier, ?_⟩
  rwa [← List.append_assoc, hrecords]

/-- The sources that are compiled together with the given documents. -/
def together (p : Project) (documents : List Source) : List Source :=
  documents ++ p.librariesBeside documents

theorem ends_runCompiler {sources : List Source} {x : Except Refusal (Except Cause Outcome)}
    (h : Ends (runCompiler e sources) p x q) :
    x = .ok (e.compiler sources).result ∧ Logged p q ∧ Ran sources p q := by
  unfold runCompiler at h
  rw [ends_modify_bind_iff, ends_bind_iff] at h
  rcases h with ⟨r, hr, -⟩ | ⟨y, mid, hlog, hresult⟩
  · obtain ⟨hx, -⟩ := logged_of_ends_forM hr
    simp at hx
  · obtain ⟨-, hlogged⟩ := logged_of_ends_forM hlog
    obtain ⟨rfl, rfl⟩ := ends_pure_iff.1 hresult
    refine ⟨rfl, ⟨hlogged.same, (List.prefix_append _ _).trans hlogged.journal⟩, [], ?_⟩
    rw [List.append_nil]
    exact hlogged.journal

/-! ### Taking over the outcome -/

/-- A fault changes at most what is shown. -/
structure FaultTaken (e : Surroundings) (message : Message) (p q : Project) : Prop where
  same : q = { p with display := q.display }
  journal : p.display.connection.journal <+: q.display.connection.journal
  board : q.display.board = p.display.board ∨
    ∃ notice, p.display.board.showFault e.disk.workingPath message = .ok (q.display.board, notice)

theorem ends_takeFault {message : Message} {x : Except Refusal Unit}
    (h : Ends (takeFault e message) p x q) : FaultTaken e message p q := by
  unfold takeFault at h
  rw [ends_get_bind_iff, ends_answer_bind_iff] at h
  rcases h with ⟨r, -, -, rfl⟩ | ⟨inside, -, h⟩
  · exact ⟨rfl, List.prefix_refl _, .inl rfl⟩
  · split at h
    · unfold say at h
      rw [ends_log_bind_iff, ends_onDisplay_iff] at h
      rcases h with ⟨r, -, -, rfl⟩ | ⟨d, hd, -, rfl⟩
      · exact ⟨rfl, journal_log _ _, .inl rfl⟩
      · obtain ⟨board, notice, hboard, rfl, hjournal⟩ := shown_of_showFault hd
        exact ⟨rfl, (journal_log _ _).trans hjournal, .inr ⟨notice, hboard⟩⟩
    · unfold say at h
      obtain ⟨-, rfl⟩ := ends_log_iff.1 h
      exact ⟨rfl, journal_log _ _, .inl rfl⟩

/-- A report is the last one from then on, and what was noted before is struck off. It is shown if it
can be, and otherwise the refusal tells why. -/
structure ReportTaken (e : Surroundings) (report : Report) (documents : List Source)
    (noted : Keyed Nat) (p q : Project) (x : Except Refusal Unit) : Prop where
  same : q = { p with
    last? := some report
    documents := p.documents.strikeUnchanged noted
    display := q.display }
  journal : p.display.connection.journal <+: q.display.connection.journal
  shown : (∃ notices, x = .ok () ∧
      p.display.board.showReport e.disk.workingPath report documents =
        .ok (q.display.board, notices)) ∨
    ∃ r, x = .error r ∧ q.display = p.display ∧
      p.display.board.showReport e.disk.workingPath report documents = .error r

theorem ends_takeReport {report : Report} {documents : List Source} {noted : Keyed Nat}
    {x : Except Refusal Unit} (h : Ends (takeReport e report documents noted) p x q) :
    ReportTaken e report documents noted p q x := by
  unfold takeReport at h
  rw [ends_modify_bind_iff, ends_onDisplay_iff] at h
  rcases h with ⟨r, hr, rfl, rfl⟩ | ⟨d, hd, rfl, rfl⟩
  · exact ⟨rfl, List.prefix_refl _, .inr ⟨r, rfl, rfl, board_refuses_of_showReport hr⟩⟩
  · obtain ⟨board, notices, hboard, rfl, hjournal⟩ := shown_of_showReport hd
    exact ⟨rfl, hjournal, .inl ⟨notices, rfl, hboard⟩⟩

/-! ### The ways in which recompiling ends -/

/-- The ways in which recompiling ends. -/
inductive Recompilation (e : Surroundings) (p : Project) :
    Except Refusal (Option Outcome) → Project → Prop
  /-- There was nothing to do. -/
  | settled (hsettled : p.isSettled = true) : Recompilation e p (.ok none) p
  /-- It is refused to tell which documents belong to the workspace. -/
  | refused {r : Refusal} (hopen : p.isSettled = false) (hrefused : p.candidates e = .error r) :
      Recompilation e p (.error r) p
  /-- No document belongs to the workspace. -/
  | empty {q : Project} (hopen : p.isSettled = false) (hempty : p.candidates e = .ok [])
      (hlogged : Logged p q) : Recompilation e p (.ok none) q
  /-- The compiler broke down. -/
  | broken {q : Project} {documents : List Source} {cause : Cause} (hopen : p.isSettled = false)
      (hdocuments : p.candidates e = .ok documents) (hne : documents ≠ [])
      (hresult : (e.compiler (p.together documents)).result = .error cause)
      (hran : Ran (p.together documents) p q) (hlogged : Logged p q) :
      Recompilation e p (.ok none) q
  /-- The compiler gave a fault. -/
  | fault {q mid : Project} {documents : List Source} {message : Message} {x : Except Refusal Unit}
      (hopen : p.isSettled = false) (hdocuments : p.candidates e = .ok documents)
      (hne : documents ≠ [])
      (hresult : (e.compiler (p.together documents)).result = .ok (.fault message))
      (hran : Ran (p.together documents) p mid) (hlogged : Logged p mid)
      (htaken : FaultTaken e message mid q) :
      Recompilation e p (x.map fun _ => some (.fault message)) q
  /-- The compiler gave a report. -/
  | finished {q mid : Project} {documents : List Source} {report : Report}
      {x : Except Refusal Unit} (hopen : p.isSettled = false)
      (hdocuments : p.candidates e = .ok documents) (hne : documents ≠ [])
      (hresult : (e.compiler (p.together documents)).result = .ok (.finished report))
      (hran : Ran (p.together documents) p mid) (hlogged : Logged p mid)
      (htaken : ReportTaken e report documents p.documents.dirty mid q x) :
      Recompilation e p (x.map fun _ => some (.finished report)) q

/-- Recompiling ends in one of these ways. -/
theorem recompilation_of_ends {x : Except Refusal (Option Outcome)}
    (h : Ends (recompile e) p x q) : Recompilation e p x q := by
  unfold recompile at h
  rw [ends_get_bind_iff] at h
  split at h
  · next hsettled =>
      obtain ⟨rfl, rfl⟩ := ends_pure_iff.1 h
      exact .settled hsettled
  · next hopen =>
      have hopen : p.isSettled = false := by simpa using hopen
      unfold say at h
      rw [ends_answer_bind_iff] at h
      rcases h with ⟨r, hrefused, rfl, rfl⟩ | ⟨documents, hdocuments, h⟩
      · exact .refused hopen hrefused
      · split at h
        · next hempty =>
            obtain rfl := List.isEmpty_iff.1 hempty
            rw [ends_log_bind_iff] at h
            obtain ⟨rfl, rfl⟩ := ends_pure_iff.1 h
            exact .empty hopen hdocuments (.log p _)
        · next hne =>
            have hne : documents ≠ [] := by simpa using hne
            rw [ends_log_bind_iff, ends_bind_iff] at h
            rcases h with ⟨r, hr, rfl⟩ | ⟨result, mid, hrun, h⟩
            · obtain ⟨hx, -⟩ := ends_runCompiler hr
              simp at hx
            · obtain ⟨hresult, hlogged, hran⟩ := ends_runCompiler hrun
              have hran := hran.of_logged (.log p _)
              have hlogged := (Logged.log p _).trans hlogged
              obtain rfl := Except.ok.inj hresult
              split at h
              · next cause hcause =>
                  rw [ends_log_bind_iff] at h
                  obtain ⟨rfl, rfl⟩ := ends_pure_iff.1 h
                  exact .broken hopen hdocuments hne hcause
                    (hran.trans (journal_log _ _)) (hlogged.trans (.log mid _))
              · next message hmessage =>
                  obtain ⟨y, htake, rfl⟩ := ends_bind_pure_iff.1 h
                  exact .fault hopen hdocuments hne hmessage hran hlogged (ends_takeFault htake)
              · next report hreport =>
                  obtain ⟨y, htake, rfl⟩ := ends_bind_pure_iff.1 h
                  exact .finished hopen hdocuments hne hreport hran hlogged (ends_takeReport htake)

/-- Recompiling a settled project changes nothing. -/
theorem ends_recompile_of_settled (hsettled : p.isSettled = true) :
    Ends (recompile e) p (.ok none) p := by
  unfold recompile
  rw [ends_get_bind_iff, if_pos hsettled]
  exact ends_pure_iff.2 ⟨rfl, rfl⟩

/-- Recompiling ends somewhere. -/
theorem exists_recompilation (e : Surroundings) (p : Project) :
    ∃ x q, Ends (recompile e) p x q ∧ Recompilation e p x q :=
  ⟨_, _, rfl, recompilation_of_ends rfl⟩

/-- A project that is not settled is recompiled by running the compiler, if any document belongs to
the workspace. -/
theorem Recompilation.ran {x : Except Refusal (Option Outcome)} (h : Recompilation e p x q)
    (hopen : p.isSettled = false) {documents : List Source}
    (hdocuments : p.candidates e = .ok documents) (hne : documents ≠ []) :
    Ran (p.together documents) p q := by
  cases h with
  | settled hsettled => simp [hopen] at hsettled
  | refused _ hrefused => simp [hdocuments] at hrefused
  | empty _ hempty _ => exact absurd (Except.ok.inj (hdocuments.symm.trans hempty)) hne
  | broken _ hsame _ _ hran _ =>
      obtain rfl := Except.ok.inj (hdocuments.symm.trans hsame)
      exact hran
  | fault _ hsame _ _ hran _ htaken =>
      obtain rfl := Except.ok.inj (hdocuments.symm.trans hsame)
      exact hran.trans htaken.journal
  | finished _ hsame _ _ hran _ htaken =>
      obtain rfl := Except.ok.inj (hdocuments.symm.trans hsame)
      exact hran.trans htaken.journal

end Npl.Project
