import Mathlib.Data.List.Nodup
import Npl.Proofs.Project.History
import Npl.Proofs.Project.Outcome
import Npl.Proofs.Project.Round

/-!
# Whom diagnostics are sent for

A list of diagnostics that is not empty comes from the compiler's outcome, and holds the messages
that are located at its URI. A report is sent for documents only. A fault is sent wherever it lies in
the workspace, be that at a document or at a library: a library below a root that is not among the
documents is sent its fault. That is the one way in which anything but a document gets diagnostics.

## Main definitions

* `Project.Tells` — a list that compiling the documents of the workspace leads to.
* `Project.Strays` — the compiler came to a fault at a library of the workspace that is no document.

## Main results

* `Project.sent_of_recompile` — what recompiling sends.
* `Project.Lived.sent_of_ends` — what operations send, and for whom.
-/

namespace Npl

/-! ### Messages of an outcome -/

/-- The messages of an outcome that are located at a URI. -/
def Outcome.messagesAt (outcome : Outcome) (wd : Path) (uri : String) : List Message :=
  outcome.messages.filter fun m => m.location.toUri wd = uri

/-- The list holds the diagnostics of all messages of an outcome that are located at its URI. -/
def Outcome.TellsIn (outcome : Outcome) (wd : Path) (notice : Notice) : Prop :=
  (outcome.messagesAt wd notice.1).map Message.toDiagnostic = notice.2.map .ok

namespace Project

open Npl.Project.Action

variable {e : Surroundings} {p q : Project}

/-! ### What outcomes send -/

/-- The fault lies in the workspace and has a diagnostic. -/
structure Admits (e : Surroundings) (p : Project) (message : Message) (d : Diagnostic) : Prop where
  inside : p.workspace.contains e.disk message.location = .ok true
  diagnostic : message.toDiagnostic = .ok d

theorem Admits.of_alike {message : Message} {d : Diagnostic} (h : Admits e p message d)
    (halike : Alike p q) : Admits e q message d :=
  ⟨by rw [halike.workspace, h.inside], h.diagnostic⟩

/-- A fault is sent for the place that it is located at if it lies in the workspace and has a
diagnostic, and else nothing is sent. -/
theorem sent_of_takeFault (hclient : p.display.connection.client ≠ .absent) {message : Message}
    {x : Except Refusal Unit} (h : Ends (takeFault e message) p x q) :
    (∃ d, Admits e p message d ∧ q.display.connection.notices = p.display.connection.notices ++
      [(message.location.toUri e.disk.workingPath, [d])]) ∨
    (∀ d, ¬ Admits e p message d) ∧
      q.display.connection.notices = p.display.connection.notices := by
  unfold takeFault at h
  rw [ends_get_bind_iff, ends_answer_bind_iff] at h
  rcases h with ⟨r, hr, -, rfl⟩ | ⟨inside, hinside, h⟩
  · exact .inr ⟨fun d hadmits => by simp [hadmits.inside] at hr, rfl⟩
  split at h
  · next hyes =>
      subst hyes
      rcases ends_bind_iff.1 h with ⟨r, hr, -⟩ | ⟨u, told, hsay, hshow⟩
      · exact absurd (ends_log_iff.1 hr).1 (by simp)
      have hmute := (mute_log _).related hsay
      rcases ends_onDisplay_iff.1 hshow with ⟨r, hr, -, rfl⟩ | ⟨display, hd, -, rfl⟩
      · refine .inr ⟨fun d hadmits => ?_, hmute.notices⟩
        simp [Display.showFault, Board.showFault, hadmits.diagnostic, Except.mapError] at hr
      · have hchange : told.display.change e.disk.workingPath (.fault message) = .ok display := hd
        obtain ⟨ns, hboard, hsent⟩ := Display.sent_of_change hchange
        obtain ⟨⟨board, notice⟩, hshow, hnotice⟩ := map_eq_ok_iff.1 hboard
        obtain ⟨-, rfl⟩ := Prod.mk.inj hnotice
        obtain ⟨d', hd', hpure⟩ := bind_eq_ok_iff.1 hshow
        obtain ⟨-, rfl⟩ := Prod.mk.inj (pure_eq_ok_iff.1 hpure)
        refine .inl ⟨d', ⟨hinside, mapError_eq_ok_iff.1 hd'⟩, ?_⟩
        rw [hsent.notices, if_neg (hmute.client ▸ hclient), hmute.notices]
  · next hno =>
      have hmute := (mute_log _).related h
      refine .inr ⟨fun d hadmits => ?_, hmute.notices⟩
      exact hno (Except.ok.inj (hinside.symm.trans hadmits.inside))

/-- A report that comes through sends the lists that it should, and else nothing is sent. -/
theorem sent_of_takeReport {client : Client} (hclient : client ≠ .absent)
    (hp : Board.Faithful client p) {report : Report} {documents : List Source} {noted : Keyed Nat}
    {x : Except Refusal Unit} (h : Ends (takeReport e report documents noted) p x q) :
    (∃ sent, q.display.connection.notices = p.display.connection.notices ++ sent ∧
      Board.Publishes e.disk.workingPath p.display.board report documents sent) ∨
    q.display.connection.notices = p.display.connection.notices := by
  unfold takeReport at h
  rw [ends_modify_bind_iff] at h
  have hcall : Ends ((Board.Call.report report documents).act e) _ x q := h
  rcases Board.Call.act_cases hcall with ⟨r, -, rfl⟩ | ⟨d, -, rfl, -⟩
  · exact .inr rfl
  · have hstruck : Board.Faithful client { p with
        last? := some report
        documents := p.documents.strikeUnchanged noted } := hp.of_same rfl rfl rfl
    exact .inl (hstruck.publishes hclient hcall)

/-- Of the lists of a report, those that are not empty are for documents, and tell all that the
report has to say about them. -/
theorem tells_of_publishes {wd : Path} {b : Board} {report : Report} {documents : List Source}
    {sent : List Notice} (h : Board.Publishes wd b report documents sent) {notice : Notice}
    (hmem : notice ∈ sent) (hne : notice.2 ≠ []) :
    (∃ s ∈ documents, canonicalUri wd s.uri = .ok notice.1) ∧
      (Outcome.finished report).TellsIn wd notice := by
  have hunique : ∀ other ∈ sent, other.1 = notice.1 → other = notice :=
    fun other hother heq => List.inj_on_of_nodup_map h.once hother hmem heq
  have hdocument : ∃ s ∈ documents, canonicalUri wd s.uri = .ok notice.1 := by
    rcases h.only notice hmem with hdocument | hshown
    · exact hdocument
    · by_contra hnone
      have hstale := h.stale notice.1 hshown fun s hs heq => hnone ⟨s, hs, heq⟩
      exact hne (congrArg Prod.snd (hunique _ hstale rfl)).symm
  refine ⟨hdocument, ?_⟩
  obtain ⟨s, hs, hkey⟩ := hdocument
  obtain ⟨uri, diagnostics, hkey', hsent, htells⟩ := h.current s hs
  obtain rfl := Except.ok.inj (hkey'.symm.trans hkey)
  obtain rfl : diagnostics = notice.2 := congrArg Prod.snd (hunique _ hsent rfl)
  rw [Report.messagesAt, ← report.messages_eq] at htells
  exact htells

/-- The list is one that compiling the documents of the workspace leads to: it tells of the outcome,
and it is for a document, or for the place of a fault in the workspace. -/
structure Tells (e : Surroundings) (p : Project) (documents : List Source) (outcome : Outcome)
    (notice : Notice) : Prop where
  compiles : Compiles e p documents outcome
  tells : outcome.TellsIn e.disk.workingPath notice
  addressed : (∃ s ∈ documents, canonicalUri e.disk.workingPath s.uri = .ok notice.1) ∨
    ∃ message d, outcome = .fault message ∧ Admits e p message d ∧
      notice.1 = message.location.toUri e.disk.workingPath

theorem Tells.of_alike {documents : List Source} {outcome : Outcome} {notice : Notice}
    (h : Tells e p documents outcome notice) (halike : Alike p q) :
    Tells e q documents outcome notice := by
  refine ⟨h.compiles.of_alike halike, h.tells, h.addressed.imp_right ?_⟩
  rintro ⟨message, d, houtcome, hadmits, huri⟩
  exact ⟨message, d, houtcome, hadmits.of_alike halike, huri⟩

/-- What recompiling sends. A fault in the workspace that has a diagnostic is sent, unless nothing
was compiled. -/
theorem sent_of_recompile {client : Client} (hclient : client ≠ .absent)
    (hp : Board.Faithful client p) {x : Except Refusal (Option Outcome)}
    (h : Ends (recompile e) p x q) :
    ∃ sent, q.display.connection.notices = p.display.connection.notices ++ sent ∧
      (∀ notice ∈ sent, notice.2 ≠ [] → ∃ documents outcome,
        Tells e p documents outcome notice ∧ Ran (p.together documents) p q) ∧
      ∀ documents message d, Compiles e p documents (.fault message) → Admits e p message d →
        ¬ Quiet p q → (message.location.toUri e.disk.workingPath, [d]) ∈ sent := by
  cases taking_of_recompile h with
  | idle hmute hidle =>
  refine ⟨[], by rw [hmute.notices, List.append_nil], by simp, ?_⟩
  intro documents message d hcompiles _ hopen
  rcases hidle with rfl | hnone
  · exact absurd (refl_of Quiet _) hopen
  · exact absurd hcompiles (hnone documents _)
  | @takes documents outcome mid _ _ hcompiles hmute hran htake =>
  have hmid : Board.Faithful client mid :=
    hp.of_same (by rw [hmute.same]) hmute.client hmute.notices
  have halike : Alike p mid := .of_display (by rw [hmute.same])
  rw [← hmute.notices]
  cases outcome with
  | finished report =>
      have hno : ∀ documents' message, ¬ Compiles e p documents' (.fault message) :=
        fun documents' message hfault => by simpa using (hcompiles.unique hfault).2
      rcases sent_of_takeReport hclient hmid htake with ⟨sent, hsent, hpublishes⟩ | hsent
      · refine ⟨sent, hsent, fun notice hmem hne => ?_, fun documents' message _ hfault =>
          absurd hfault (hno documents' message)⟩
        obtain ⟨hdocument, htells⟩ := tells_of_publishes hpublishes hmem hne
        exact ⟨documents, _, ⟨hcompiles, htells, .inl hdocument⟩, hran⟩
      · exact ⟨[], by rw [hsent, List.append_nil], by simp, fun documents' message _ hfault =>
          absurd hfault (hno documents' message)⟩
  | fault message =>
      rcases sent_of_takeFault (hmid.client ▸ hclient) htake with ⟨d, hd, hsent⟩ | ⟨hno, hsent⟩
      · have hd := hd.of_alike halike.symm
        refine ⟨_, hsent, fun notice hmem _ => ?_, fun documents' message' d' hfault hd' _ => ?_⟩
        · obtain rfl := List.mem_singleton.1 hmem
          refine ⟨documents, _, ⟨hcompiles, ?_, .inr ⟨message, d, rfl, hd, rfl⟩⟩, hran⟩
          simp [Outcome.TellsIn, Outcome.messagesAt, Outcome.messages, hd.diagnostic]
        · obtain ⟨-, hsame⟩ := hcompiles.unique hfault
          obtain rfl := Outcome.fault.inj hsame
          obtain rfl := Except.ok.inj (hd.diagnostic.symm.trans hd'.diagnostic)
          exact List.mem_singleton_self _
      · refine ⟨[], by rw [hsent, List.append_nil], by simp, ?_⟩
        intro documents' message' d' hfault hd' _
        obtain ⟨-, hsame⟩ := hcompiles.unique hfault
        obtain rfl := Outcome.fault.inj hsame
        exact absurd (hd'.of_alike halike) (hno d')

/-! ### What operations send -/

/-- Since the first project, the compiler came to an outcome about the documents of the second. -/
structure Compiled (e : Surroundings) (p q : Project) (documents : List Source)
    (outcome : Outcome) : Prop where
  compiles : Compiles e q documents outcome
  ran : Ran (q.together documents) p q

/-- Since the first project, the compiler came to a fault at a library that lies in the workspace
and is no document. -/
def Strays (e : Surroundings) (p q : Project) : Prop :=
  ∃ documents message d, Compiled e p q documents (.fault message) ∧ Admits e q message d ∧
    (∃ s ∈ q.librariesBeside documents, s.location = message.location) ∧
    message.location.toUri e.disk.workingPath ∉ q.documents.sources.keys

/-- A list that is for no document tells of a stray fault. -/
theorem Tells.strays {disk : Disk} {documents : List Source} {outcome : Outcome} {notice : Notice}
    (h : Tells ⟨disk, .standard⟩ q documents outcome notice) (hd : disk.Sane)
    (hq : q.Orderly ⟨disk, .standard⟩) (hcompiled : Compiled ⟨disk, .standard⟩ p q documents outcome)
    (hnone : notice.1 ∉ q.documents.sources.keys) : Strays ⟨disk, .standard⟩ p q := by
  have hdocument : ∀ s ∈ documents, canonicalUri disk.workingPath s.uri = .ok s.uri ∧
      s.uri ∈ q.documents.sources.keys := fun s hs => hq.mem_keys hd h.compiles.inScope hs
  rcases h.addressed with ⟨s, hs, hkey⟩ | ⟨message, d, rfl, hadmits, huri⟩
  · obtain ⟨hcanonical, hmem⟩ := hdocument s hs
    obtain hsame := Except.ok.inj (hcanonical.symm.trans hkey)
    exact absurd (hsame ▸ hmem) hnone
  · refine ⟨documents, message, d, hcompiled, hadmits, ?_, huri ▸ hnone⟩
    obtain ⟨s, hs, habout⟩ := h.compiles.about message (List.mem_singleton_self message)
    have hlocation : s.location = message.location := habout.1.symm
    rcases List.mem_append.1 hs with hs | hs
    · -- The fault would be for this document.
      obtain ⟨entry, hentry, rfl⟩ := List.mem_map.1 (mem_all_of_candidates h.compiles.inScope hs)
      have hnamed := (hq.canonical entry hentry).named
      have hmem := (hdocument _ hs).2
      rw [hnamed, hlocation, ← huri] at hmem
      exact absurd hmem hnone
    · exact ⟨s, hs, hlocation⟩

/-- **Diagnostics are for documents**, but for stray faults. Every list with diagnostics that an
operation sends tells all that the compiler had to say about its URI, and that is the key of a
document, unless the compiler came to a fault at a library that lies in the workspace and is no
document. Then, and only then, the operation sends that library diagnostics. -/
theorem Lived.sent_of_ends {client : Client} {wd : Path} (hclient : client ≠ .absent)
    (h : Lived client wd p) {disk : Disk} (hd : disk.Sane) (hwd : disk.workingPath = wd)
    {op : Operation} {x : Except Refusal Unit} (hends : Ends (op.act ⟨disk, .standard⟩) p x q) :
    ∃ sent, q.display.connection.notices = p.display.connection.notices ++ sent ∧
      (∀ notice ∈ sent, notice.2 ≠ [] → ∃ documents outcome,
        Compiled ⟨disk, .standard⟩ p q documents outcome ∧ outcome.TellsIn wd notice) ∧
      ((∃ notice ∈ sent, notice.2 ≠ [] ∧ notice.1 ∉ q.documents.sources.keys) ↔
        Strays ⟨disk, .standard⟩ p q) := by
  subst hwd
  have hq := orderly_of_ends hd (h.orderly ⟨disk, .standard⟩ rfl) hends
  cases (compilesOnce_operation op).related hends with
  | quiet hquiet =>
      obtain ⟨sent, hsent, hempty⟩ := hquiet.journal.notices
      refine ⟨sent, hsent, fun notice hmem hne => absurd (hempty notice hmem) hne, ?_, ?_⟩
      · rintro ⟨notice, hmem, hne, -⟩
        exact absurd (hempty notice hmem) hne
      · rintro ⟨documents, message, d, hcompiled, -⟩
        exact absurd hcompiled.ran hquiet.not_ran
  | @compiles mid after _ _ hbefore hrecompile hafter =>
      have halike : Alike mid q := (alike_of_recompile hrecompile).trans (.of_display hafter.same)
      obtain ⟨first, hfirst, hempty⟩ := hbefore.journal.notices
      obtain ⟨sent, hsent, htells, hfault⟩ :=
        sent_of_recompile hclient (hbefore.inStep client h.faithful) hrecompile
      obtain ⟨last, hlast, hempty'⟩ := hafter.quiet.journal.notices
      have hsome : ∀ notice ∈ first ++ sent ++ last, notice.2 ≠ [] → ∃ documents outcome,
          Compiled ⟨disk, .standard⟩ p q documents outcome ∧
            Tells ⟨disk, .standard⟩ q documents outcome notice := by
        intro notice hmem hne
        have hmem : notice ∈ sent := by
          simp only [List.mem_append] at hmem
          rcases hmem with (hmem | hmem) | hmem
          · exact absurd (hempty notice hmem) hne
          · exact hmem
          · exact absurd (hempty' notice hmem) hne
        obtain ⟨documents, outcome, htells, hran⟩ := htells notice hmem hne
        have htells := htells.of_alike halike
        refine ⟨documents, outcome, ⟨htells.compiles, ?_⟩, htells⟩
        rw [halike.together]
        exact hbefore.ran hran hafter.quiet
      refine ⟨first ++ sent ++ last, ?_, fun notice hmem hne => ?_, ?_, ?_⟩
      · rw [hlast, hsent, hfirst, List.append_assoc, List.append_assoc, List.append_assoc]
      · obtain ⟨documents, outcome, hcompiled, htells⟩ := hsome notice hmem hne
        exact ⟨documents, outcome, hcompiled, htells.tells⟩
      · rintro ⟨notice, hmem, hne, hnone⟩
        obtain ⟨documents, outcome, hcompiled, htells⟩ := hsome notice hmem hne
        exact htells.strays hd hq hcompiled hnone
      · rintro ⟨documents, message, d, hcompiled, hadmits, -, hnone⟩
        refine ⟨(message.location.toUri disk.workingPath, [d]), ?_, by simp, hnone⟩
        have hloud : ¬ Quiet mid after := fun hquiet =>
          (trans_of Quiet (trans_of Quiet hbefore hquiet) hafter.quiet).not_ran hcompiled.ran
        have hmem := hfault documents message d (hcompiled.compiles.of_alike halike.symm)
          (hadmits.of_alike halike.symm) hloud
        simp [hmem]

/-! ### A stray fault -/

/-- A disk with a library that holds one function, whose type depends on itself. -/
def libraryDisk : Disk where
  workingDirectory := []
  entries := [
    (["lib"], .directory),
    (["lib", "l.npl"],
      .file (.bytes (Text.Utf8.encode "package l\nfunction f() -> f();".toList)))]

/-- A project with the library and no roots. -/
def equipped : Project :=
  ((Operation.load [] ["/lib"]).act ⟨libraryDisk, .standard⟩ (start (.start .plain 30 false))).2

/-- The project after a document was opened. -/
def strayed : Project :=
  ((Operation.update "file:///a.npl" "package a" true).act ⟨libraryDisk, .standard⟩ equipped).2

/-- As there are no roots, the library lies in the workspace. When the document is opened, the
library is sent its fault, although it is no document. -/
theorem Lived.sent_of_ends_strayed :
    Client.plain ≠ .absent ∧ libraryDisk.Sane ∧ Lived .plain libraryDisk.workingPath equipped ∧
    strayed.documents.sources.keys = ["file:///a.npl"] ∧
    Strays ⟨libraryDisk, .standard⟩ equipped strayed := by
  have hclient : Client.plain ≠ .absent := by decide
  have hd : libraryDisk.Sane := ⟨by decide, by simp [libraryDisk], by decide⟩
  have hequipped : Lived .plain libraryDisk.workingPath equipped := (Lived.start 30 false).act hd rfl _
  have hkeys : strayed.documents.sources.keys = ["file:///a.npl"] := by decide +kernel
  have hnone : equipped.display.connection.notices = [] := by decide +kernel
  have hstray : ∃ notice ∈ strayed.display.connection.notices, notice.2 ≠ [] ∧
      notice.1 ∉ strayed.documents.sources.keys := by decide +kernel
  obtain ⟨sent, hsent, -, hiff⟩ := Lived.sent_of_ends hclient hequipped hd rfl
    (show Ends ((Operation.update "file:///a.npl" "package a" true).act _) _ _ strayed from rfl)
  rw [hnone, List.nil_append] at hsent
  exact ⟨hclient, hd, hequipped, hkeys, hiff.1 (hsent ▸ hstray)⟩

end Project

end Npl
