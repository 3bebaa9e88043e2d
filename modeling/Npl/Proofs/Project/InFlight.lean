import Mathlib.Logic.Relation
import Npl.Proofs.Documents
import Npl.Proofs.Project.Recompile

/-!
# Edits during a compilation

A compilation takes time, and documents may be edited while it is on its way. So it goes in steps:
the changes so far are noted, the documents are read, the compiler runs on those of the workspace,
and what was noted is struck off. Between any two steps there may be any number of edits.

No edit is lost. A document whose text is not the one that was read keeps its stamp, since the edit
gave it a stamp above all that were noted.

## Main definitions

* `Edit` — what can happen to the documents meanwhile.
* `Flight`, `Flight.Step` — a compilation on its way, and its steps.
* `Flight.Sound` — what holds between the steps.

## Main results

* `Flight.Step.sound` — every step keeps that.
* `Flight.eq_read_of_clean` — a document without a stamp is what was read.
* `Flight.of_recompile` — recompiling without any edits is such a flight.
-/

namespace Npl

/-! ### Edits -/

/-- What can happen to the documents while a compilation is on its way. -/
inductive Edit
  | update (uri content : String)
  | remove (uri : String)

namespace Edit

/-- The documents after an edit. One that is refused changes nothing. -/
def apply (wd : Path) (d : Documents) : Edit → Documents
  | update uri content => (d.update wd uri content).1
  | remove uri =>
    match d.remove wd uri with
    | .ok (d', _) => d'
    | .error _ => d

/-- An edit changes nothing, or one document, which it stamps. -/
theorem apply_cases (wd : Path) (d : Documents) (edit : Edit) :
    edit.apply wd d = d ∨ ∃ key sources, edit.apply wd d = { d with sources }.touch key ∧
      ∀ other, key ≠ other → sources.get? other = d.sources.get? other := by
  cases edit with
  | update uri content =>
      simp only [apply]
      rcases d.update_cases wd uri content with heq | ⟨path, -, -, heq⟩
      · exact .inl (by rw [heq])
      · refine .inr ⟨path.toUri wd, _, by rw [heq]; rfl, ?_⟩
        intro other hne
        rw [Keyed.get?_set, if_neg hne]
  | remove uri =>
      simp only [apply]
      rcases d.remove_cases wd uri with ⟨r, heq⟩ | ⟨key, -, heq⟩
      · exact .inl (by rw [heq])
      · refine .inr ⟨key, _, by rw [heq]; rfl, ?_⟩
        intro other hne
        rw [Keyed.get?_erase, if_neg hne]

/-- Documents stay reachable under edits. -/
theorem reachable_apply {wd : Path} {d : Documents} (h : d.Reachable wd) (edit : Edit) :
    (edit.apply wd d).Reachable wd := by
  cases edit with
  | update uri content => exact h.update uri content
  | remove uri =>
      simp only [apply]
      cases hremove : d.remove wd uri with
      | error r => exact h
      | ok removed => exact h.remove hremove

end Edit

/-! ### Flights -/

/-- How far a compilation has come: what it has noted, and the documents that it has read. -/
inductive Flight.Phase
  | ready
  | noted (stamps : Keyed Nat)
  | read (stamps : Keyed Nat) (documents : List Source)
  | compiled (stamps : Keyed Nat) (documents : List Source) (report : Report)
  | struck (documents : List Source)

/-- A compilation on its way, and the project as it is meanwhile. -/
structure Flight where
  project : Project
  phase : Flight.Phase

namespace Flight

variable {e : Surroundings} {f g : Flight} {p q : Project}

/-- One step of a compilation that comes to a report, or an edit in between. -/
inductive Step (e : Surroundings) : Flight → Flight → Prop
  | edit (p : Project) (phase : Phase) (edit : Edit) :
      Step e ⟨p, phase⟩
        ⟨{ p with documents := edit.apply e.disk.workingPath p.documents }, phase⟩
  | note (p : Project) (hopen : p.isSettled = false) :
      Step e ⟨p, .ready⟩ ⟨p, .noted p.documents.dirty⟩
  | read (p : Project) (stamps : Keyed Nat) :
      Step e ⟨p, .noted stamps⟩ ⟨p, .read stamps p.documents.all⟩
  | compile (p : Project) (stamps : Keyed Nat) {documents candidates : List Source}
      {report : Report}
      (hcandidates : documents.filterM (fun s => p.workspace.contains e.disk s.location) =
        .ok candidates) (hne : candidates ≠ [])
      (hresult : (e.compiler (p.together candidates)).result = .ok (.finished report)) :
      Step e ⟨p, .read stamps documents⟩ ⟨p, .compiled stamps documents report⟩
  | strike (p : Project) (stamps : Keyed Nat) (documents : List Source) (report : Report) :
      Step e ⟨p, .compiled stamps documents report⟩
        ⟨{ p with
          last? := some report
          documents := p.documents.strikeUnchanged stamps }, .struck documents⟩

/-- Compilations with any number of edits on their way. -/
abbrev Run (e : Surroundings) : Flight → Flight → Prop :=
  Relation.ReflTransGen (Step e)

/-! ### What holds between the steps -/

/-- All stamps that were noted lie up to a limit, and all documents that are not what was read have
a stamp above it. -/
def Covered (stamps : Keyed Nat) (documents : List Source) (d : Documents) : Prop :=
  ∃ limit, (∀ e ∈ stamps.entries, e.2 ≤ limit) ∧ limit ≤ d.changes ∧
    ∀ key, d.sources.get? key = documents.find? (·.uri = key) ∨
      ∃ n, d.dirty.get? key = some n ∧ limit < n

/-- A document without a stamp is what was read. -/
def Clean (documents : List Source) (d : Documents) : Prop :=
  ∀ key, d.dirty.get? key = none → d.sources.get? key = documents.find? (·.uri = key)

/-- An edit stamps what it changes above the limit. -/
theorem Covered.edit {stamps : Keyed Nat} {documents : List Source} {d : Documents}
    (h : Covered stamps documents d) (wd : Path) (edit : Edit) :
    Covered stamps documents (edit.apply wd d) := by
  rcases edit.apply_cases wd d with heq | ⟨key, sources, heq, hother⟩
  · rwa [heq]
  · obtain ⟨limit, hstamps, hlimit, hcovered⟩ := h
    rw [heq]
    refine ⟨limit, hstamps, Nat.le_succ_of_le hlimit, ?_⟩
    intro other
    by_cases hkey : key = other
    · refine .inr ⟨d.changes + 1, ?_, Nat.lt_succ_of_le hlimit⟩
      simp [Documents.touch, Keyed.get?_set, hkey]
    · have hdirty : ({ d with sources }.touch key).dirty.get? other = d.dirty.get? other := by
        simp [Documents.touch, Keyed.get?_set, hkey]
      rw [hdirty]
      change sources.get? other = _ ∨ _
      rw [hother other hkey]
      exact hcovered other

/-- An edit stamps what it changes. -/
theorem Clean.edit {documents : List Source} {d : Documents} (h : Clean documents d) (wd : Path)
    (edit : Edit) : Clean documents (edit.apply wd d) := by
  rcases edit.apply_cases wd d with heq | ⟨key, sources, heq, hother⟩
  · rwa [heq]
  · rw [heq]
    intro other hclean
    simp only [Documents.touch, Keyed.get?_set] at hclean
    split at hclean
    · simp at hclean
    · next hkey =>
        change sources.get? other = _
        rw [hother other hkey]
        exact h other hclean

/-- Striking off what was noted spares what has a stamp above the limit. -/
theorem Covered.strike {stamps : Keyed Nat} {documents : List Source} {d : Documents}
    (h : Covered stamps documents d) : Clean documents (d.strikeUnchanged stamps) := by
  obtain ⟨limit, hstamps, -, hcovered⟩ := h
  intro key hclean
  rcases hcovered key with hread | ⟨n, hn, hlt⟩
  · exact hread
  · rw [Documents.strikeUnchanged_get?_of_lt hstamps hn hlt] at hclean
    simp at hclean

/-- What holds of the documents in each phase. -/
def Phase.Holds (d : Documents) : Phase → Prop
  | ready => True
  | noted stamps => ∀ e ∈ stamps.entries, e.2 ≤ d.changes
  | read stamps documents => Covered stamps documents d
  | compiled stamps documents _ => Covered stamps documents d
  | struck documents => Clean documents d

/-- What holds between the steps. -/
structure Sound (e : Surroundings) (f : Flight) : Prop where
  reachable : f.project.documents.Reachable e.disk.workingPath
  phase : f.phase.Holds f.project.documents

/-- Every step keeps what holds between the steps. -/
theorem Step.sound (h : Step e f g) (hf : Sound e f) : Sound e g := by
  obtain ⟨hreachable, hphase⟩ := hf
  cases h with
  | edit p phase edit =>
      refine ⟨Edit.reachable_apply hreachable edit, ?_⟩
      cases phase with
      | ready => trivial
      | noted stamps =>
          intro e' he'
          rcases edit.apply_cases e.disk.workingPath p.documents with heq | ⟨key, sources, heq, -⟩
          · rw [heq]
            exact hphase e' he'
          · rw [heq]
            exact Nat.le_succ_of_le (hphase e' he')
      | read stamps documents => exact Covered.edit hphase _ edit
      | compiled stamps documents report => exact Covered.edit hphase _ edit
      | struck documents => exact Clean.edit hphase _ edit
  | note p hopen => exact ⟨hreachable, hreachable.kept.stamped⟩
  | read p stamps =>
      exact ⟨hreachable, p.documents.changes, hphase, Nat.le_refl _,
        fun key => .inl (hreachable.kept.get?_eq_find? key)⟩
  | compile p stamps hcandidates hne hresult => exact ⟨hreachable, hphase⟩
  | strike p stamps documents report =>
      exact ⟨hreachable.strikeUnchanged stamps, Covered.strike hphase⟩

/-- Whole runs keep it, too. -/
theorem Run.sound (h : Run e f g) (hf : Sound e f) : Sound e g := by
  induction h with
  | refl => exact hf
  | tail _ hstep ih => exact hstep.sound ih

/-! ### No edit is lost -/

/-- A project with a stamp is not settled, and recompiling it runs the compiler if any document
belongs to the workspace. -/
theorem recompiles_of_stamp {key : String} {n : Nat} (h : p.documents.dirty.get? key = some n) :
    p.isSettled = false ∧ ∀ documents, p.candidates e = .ok documents → documents ≠ [] →
      ∃ x q, Project.Action.Ends (Project.recompile e) p x q ∧
        Project.Ran (p.together documents) p q := by
  have hopen : p.isSettled = false := by
    have hmem := Keyed.mem_of_get? h
    have hne : p.documents.dirty.entries.isEmpty = false :=
      List.isEmpty_eq_false_iff_exists_mem.2 ⟨_, hmem⟩
    simp [Project.isSettled, hne]
  refine ⟨hopen, fun documents hdocuments hne => ?_⟩
  obtain ⟨x, q, hends, hrecompilation⟩ := Project.exists_recompilation e p
  exact ⟨x, q, hends, hrecompilation.ran hopen hdocuments hne⟩

/-- **No edit is lost.** However many edits there are on the way of a compilation that comes to a
report: a document without a stamp behind it is exactly what was read. So if the text of any document
is another one, the project is not settled, and recompiling runs the compiler again. -/
theorem eq_read_of_clean {documents : List Source}
    (hp : p.documents.Reachable e.disk.workingPath)
    (h : Run e ⟨p, .ready⟩ ⟨q, .struck documents⟩) :
    (∀ key, q.documents.dirty.get? key = none →
      q.documents.sources.get? key = documents.find? (·.uri = key)) ∧
    ((∃ key, q.documents.sources.get? key ≠ documents.find? (·.uri = key)) →
      q.isSettled = false ∧ ∀ candidates, q.candidates e = .ok candidates → candidates ≠ [] →
        ∃ x s, Project.Action.Ends (Project.recompile e) q x s ∧
          Project.Ran (q.together candidates) q s) := by
  have hclean : Clean documents q.documents := (h.sound ⟨hp, trivial⟩).phase
  refine ⟨hclean, ?_⟩
  rintro ⟨key, hkey⟩
  cases hstamp : q.documents.dirty.get? key with
  | none => exact absurd (hclean key hstamp) hkey
  | some n => exact recompiles_of_stamp hstamp

/-! ### A flight with an edit -/

/-- No disk entries, and the compiler of this library. -/
def calm : Surroundings :=
  ⟨⟨[], []⟩, .standard⟩

/-- A project with one document, which is empty. -/
def opened : Project :=
  { Project.start (.start .plain 0 false) with
    documents := (Edit.update "/a.npl" "").apply calm.disk.workingPath .empty }

/-- The report about that document. -/
def openedReport : Report :=
  .failure [⟨.syntaxError, .error, "Syntax error: missing 'package' at '<EOF>'",
    ⟨.single, ["a.npl"]⟩, 1, 1, ""⟩] []

/-- The project after the document was edited behind the compiler's back, and the report came. -/
def overtaken : Project :=
  { opened with
    last? := some openedReport
    documents := ((Edit.update "/a.npl" "package a").apply calm.disk.workingPath
      opened.documents).strikeUnchanged opened.documents.dirty }

/-- A document is edited while the compiler runs. -/
theorem run_overtaken : Run calm ⟨opened, .ready⟩ ⟨overtaken, .struck opened.documents.all⟩ := by
  have hreport : compile (opened.together opened.documents.all) = .finished openedReport := by
    decide +kernel
  have hcompile : Step calm ⟨opened, .read opened.documents.dirty opened.documents.all⟩
      ⟨opened, .compiled opened.documents.dirty opened.documents.all openedReport⟩ :=
    @Step.compile calm opened _ _ opened.documents.all _ rfl (by decide) (congrArg Except.ok hreport)
  refine .tail (.tail (.tail (.tail (.tail .refl (.note opened ?_)) (.read opened _)) hcompile)
    (.edit opened _ (.update "/a.npl" "package a"))) (.strike _ _ _ openedReport)
  decide

/-- The edit that overtook the compilation is not lost. -/
theorem eq_read_of_clean_overtaken :
    opened.documents.Reachable calm.disk.workingPath ∧
    Run calm ⟨opened, .ready⟩ ⟨overtaken, .struck opened.documents.all⟩ ∧
    (∀ key, overtaken.documents.dirty.get? key = none →
      overtaken.documents.sources.get? key = opened.documents.all.find? (·.uri = key)) ∧
    overtaken.isSettled = false := by
  have hreachable : opened.documents.Reachable calm.disk.workingPath :=
    Edit.reachable_apply .empty (.update "/a.npl" "")
  have h := eq_read_of_clean hreachable run_overtaken
  exact ⟨hreachable, run_overtaken, h.1, (h.2 ⟨"file:///a.npl", by decide⟩).1⟩

/-! ### Flights without edits -/

/-- Recompiling that comes to a report is a flight without edits. -/
theorem of_recompile {x : Except Refusal (Option Outcome)} {report : Report}
    (h : Project.Recompilation e p x q) (hx : x = .ok (some (.finished report))) :
    ∃ s, Run e ⟨p, .ready⟩ ⟨s, .struck p.documents.all⟩ ∧ s.documents = q.documents ∧
      s.last? = q.last? ∧ q.last? = some report := by
  cases h with
  | settled => simp at hx
  | refused => simp at hx
  | empty => simp at hx
  | broken => simp at hx
  | @fault q mid documents message y =>
      cases y <;> simp [Except.map] at hx
  | @finished q mid documents report' y hopen hdocuments hne hresult hran hlogged htaken =>
      obtain ⟨u, -, hu⟩ := map_eq_ok_iff.1 hx
      obtain rfl := Outcome.finished.inj (Option.some.inj hu)
      refine ⟨_, .tail (.tail (.tail (.tail .refl (.note p hopen)) (.read p _))
        (.compile p _ hdocuments hne hresult)) (.strike p _ _ report'), ?_, ?_, ?_⟩
      · rw [htaken.same, hlogged.documents]
      · rw [htaken.same]
      · rw [htaken.same]

end Flight

end Npl
