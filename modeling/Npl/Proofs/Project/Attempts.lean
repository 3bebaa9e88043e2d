import Npl.Proofs.Project.Reload
import Npl.Proofs.Project.Watched

/-!
# Changes are answered

Whenever the documents are changed, other than by an edit that is compiled later, an attempt to
compile follows. If it comes to a report, nothing waits any more. If not, that is the reason why
something waits, and there is no other: between the change and the attempt nothing is refused.

## Main definitions

* `Project.Tried` — an attempt has ended without a report, and nothing was changed since.
* `Project.Answered` — nothing waits, or that is so.
* `Project.Watched.Heeds` — actions that leave the documents alone or answer what they changed.

## Main results

* `Project.heeds_update`, `Project.heeds_remove`, `Project.heeds_close`,
  `Project.heeds_setRoots_nil`, `Project.heeds_load` — operations that do.
* `Project.later_of_update` — an edit that is compiled later leaves the documents alone, answers, or
  was taken over.
-/

namespace Npl.Project

open Npl.Project.Action (Ends Respects)

variable {e : Surroundings} {p q : Project} {ms : List Moment}

/-! ### Attempts -/

/-- An attempt to compile has ended without a report, and the documents were not changed since. -/
def Tried (ms : List Moment) : Prop :=
  ∃ before x after, ms = before ++ .attempted x :: after ∧ .changed ∉ after ∧
    ∀ report, x ≠ .ok (some (.finished report))

/-- What happened before does not matter. -/
theorem Tried.append_left (h : Tried ms) (earlier : List Moment) : Tried (earlier ++ ms) := by
  obtain ⟨before, x, after, rfl, hafter, hx⟩ := h
  exact ⟨earlier ++ before, x, after, by simp, hafter, hx⟩

/-- Nothing waits, or an attempt to compile what waits has ended without a report. -/
def Answered (q : Project) (ms : List Moment) : Prop :=
  q.documents.dirty = .empty ∨ Tried ms

theorem Answered.append_left (h : Answered q ms) (earlier : List Moment) :
    Answered q (earlier ++ ms) :=
  h.imp_right fun htried => htried.append_left earlier

theorem Answered.of_same {r : Project} (h : Answered q ms) (hsame : r.documents = q.documents) :
    Answered r ms := by
  rwa [Answered, hsame]

namespace Watched

variable {α β : Type} {w : Watched α} {f : α → Watched β}

/-! ### Actions that answer what they change -/

/-- The action leaves the documents alone, or answers what it changed. -/
def Heeds (e : Surroundings) (w : Watched α) : Prop :=
  ∀ p ms x q, p.Orderly e → w.Comes p ms x q →
    q.Orderly e ∧ (ms = [] ∧ q.documents = p.documents ∨ Answered q ms)

/-- The action answers whatever waits. -/
def Answers (e : Surroundings) (w : Watched α) : Prop :=
  ∀ p ms x q, p.Orderly e → w.Comes p ms x q → q.Orderly e ∧ Answered q ms

theorem Answers.heeds (h : Answers e w) : Heeds e w := by
  intro p ms x q hp hcomes
  obtain ⟨hq, hanswered⟩ := h p ms x q hp hcomes
  exact ⟨hq, .inr hanswered⟩

theorem Answers.ignoring (h : Answers e w) : Answers e (Watched.ignoring w) := by
  intro p ms x q hp hcomes
  obtain ⟨y, hy⟩ := exists_of_comes_ignoring hcomes
  exact h p ms y q hp hy

namespace Heeds

theorem ignoring (h : Heeds e w) : Heeds e (Watched.ignoring w) := by
  intro p ms x q hp hcomes
  obtain ⟨y, hy⟩ := exists_of_comes_ignoring hcomes
  exact h p ms y q hp hy

/-- Silent actions that leave the documents alone. -/
theorem silent {a : Action α} (h : Respects (fun p q => q.documents = p.documents) a) :
    Heeds e (Watched.silent a) := by
  rintro p ms x q hp ⟨hends, rfl⟩
  have hsame : q.documents = p.documents := h.related hends
  exact ⟨hp.of_same hsame, .inl ⟨rfl, hsame⟩⟩

theorem pure (a : α) : Heeds e (Pure.pure a : Watched α) := by
  refine .silent fun p x q h => ?_
  obtain ⟨-, rfl⟩ := Action.ends_pure_iff.1 h
  rfl

theorem answer (r : Except Refusal α) : Heeds e (Watched.silent (Project.answer r)) := by
  refine .silent fun p x q h => ?_
  obtain ⟨-, rfl⟩ := Action.ends_answer_iff.1 h
  rfl

theorem log (r : LogRecord) : Heeds e (Watched.silent (Project.log r)) :=
  .silent (.log (fun _ _ hlogged => hlogged.documents) r)

theorem retract (uri : String) : Heeds e (Watched.silent (Project.retract e uri)) := by
  refine .silent fun p x q h => ?_
  rcases retract_cases h with ⟨-, -, -, rfl⟩ | ⟨-, -, -, hq, -⟩
  · rfl
  · rw [hq]

/-- One action after another. -/
theorem bind (hw : Heeds e w) (hf : ∀ x, Heeds e (f x)) : Heeds e (w >>= f) := by
  intro p ms x q hp hcomes
  rcases comes_bind_iff.1 hcomes with ⟨r, hr, -⟩ | ⟨y, mid, ms', ms'', hy, hrest, rfl⟩
  · exact hw _ _ _ _ hp hr
  obtain ⟨hmid, hfirst⟩ := hw _ _ _ _ hp hy
  obtain ⟨hq, hsecond⟩ := hf y _ _ _ _ hmid hrest
  refine ⟨hq, ?_⟩
  rcases hsecond with ⟨rfl, hsame⟩ | hanswered
  · rw [List.append_nil]
    exact hfirst.imp (fun ⟨hms, hdocuments⟩ => ⟨hms, hsame.trans hdocuments⟩)
      fun hanswered => hanswered.of_same hsame
  · exact .inr (hanswered.append_left ms')

/-- Looking at the project first. -/
theorem get_bind {f : Project → Watched β} (h : ∀ p, Heeds e (f p)) :
    Heeds e (Watched.silent MonadState.get >>= f) :=
  fun p ms x q hp hcomes => h p p ms x q hp (comes_get_bind_iff.1 hcomes)

/-- Doing something for each member of a list. -/
theorem forM {f : α → Watched PUnit} (hf : ∀ a, Heeds e (f a)) (as : List α) :
    Heeds e (as.forM f) := by
  induction as with
  | nil => exact .pure _
  | cons a as ih => exact .bind (hf a) fun _ => ih

end Heeds

/-- Behind an answer there may come more. -/
theorem Answers.bind (hw : Answers e w) (hf : ∀ x, Heeds e (f x)) : Answers e (w >>= f) := by
  intro p ms x q hp hcomes
  rcases comes_bind_iff.1 hcomes with ⟨r, hr, -⟩ | ⟨y, mid, ms', ms'', hy, hrest, rfl⟩
  · exact hw _ _ _ _ hp hr
  obtain ⟨hmid, hanswered⟩ := hw _ _ _ _ hp hy
  obtain ⟨hq, hsecond⟩ := hf y _ _ _ _ hmid hrest
  refine ⟨hq, ?_⟩
  rcases hsecond with ⟨rfl, hsame⟩ | hlater
  · rw [List.append_nil]
    exact hanswered.of_same hsame
  · exact hlater.append_left ms'

/-- Something is done for each member of a list that is not empty, and answers each time. -/
theorem Answers.forM_cons {f : α → Watched PUnit} (hf : ∀ a, Answers e (f a)) (a : α)
    (as : List α) : Answers e ((a :: as).forM f) :=
  (hf a).bind fun _ => .forM (fun b => (hf b).heeds) as

end Watched

open Watched

/-! ### Recompiling -/

/-- Recompiling a project that is not settled is an attempt, and tells how it ends. -/
theorem exists_attempted {x : Except Refusal (Option Outcome)}
    (h : (Watched.recompile e).Comes p ms x q) (hopen : p.isSettled = false) :
    ∃ before, ms = before ++ [.attempted x] := by
  unfold Watched.recompile at h
  have hcomes := comes_get_bind_iff.1 h
  rw [if_neg (by simp [hopen])] at hcomes
  obtain ⟨before, -, rfl⟩ := comes_attempting_iff.1 hcomes
  exact ⟨before, rfl⟩

/-- Recompiling answers whatever waits. -/
theorem answers_recompile (hd : e.disk.Sane) : Answers e (Watched.recompile e) := by
  intro p ms x q hp hcomes
  have hends : Ends (Project.recompile e) p x q := act_recompile e ▸ hcomes.ends
  refine ⟨(orderly_recompile hd).related hends hp, ?_⟩
  cases hopen : p.isSettled with
  | true =>
      left
      cases recompilation_of_ends hends with
      | settled =>
          have hempty := List.isEmpty_iff.1 (Bool.and_eq_true_iff.1 hopen).1
          exact congrArg Keyed.mk hempty
      | refused hunsettled | empty hunsettled | broken hunsettled | fault hunsettled
      | finished hunsettled => simp [hopen] at hunsettled
  | false =>
      obtain ⟨before, rfl⟩ := exists_attempted hcomes hopen
      have htried : (∀ report, x ≠ .ok (some (.finished report))) →
          Tried (before ++ [.attempted x]) :=
        fun hx => ⟨before, x, [], rfl, List.not_mem_nil, hx⟩
      cases recompilation_of_ends hends with
      | settled hsettled => simp [hopen] at hsettled
      | refused | empty | broken => exact .inr (htried (by simp))
      | @fault _ _ _ message y => exact .inr (htried (by cases y <;> simp [Except.map]))
      | finished _ _ _ _ _ hlogged htaken =>
          left
          rw [htaken.same, hlogged.documents]
          exact hp.kept.strikeUnchanged_self

/-! ### Changes to one document -/

/-- Forgetting a document is answered by what comes behind it. -/
theorem heeds_forget_bind {α : Type} {uri : String} {f : Unit → Watched α}
    (hf : Answers e (f ())) : Heeds e (Watched.forget e uri >>= f) := by
  intro p ms x q hp hcomes
  rcases comes_changing_bind_iff.1 hcomes with ⟨r, hr, -, rfl⟩ | ⟨u, mid, rest, hforget, hrest, rfl⟩
  · rw [eq_of_forget_refused hr]
    exact ⟨hp, .inl ⟨rfl, rfl⟩⟩
  · obtain ⟨hq, hanswered⟩ := hf _ _ _ _ (orderly_of_forget hp hforget).1 hrest
    exact ⟨hq, .inr (hanswered.append_left [.changed])⟩

/-- Forgetting a document and clearing its diagnostics is answered by what comes behind that. The
diagnostics can be cleared, since the document could be forgotten by the same URI. -/
theorem heeds_drop_bind {uri : String} {w : Watched Unit} (hw : Answers e w) :
    Heeds e (do Watched.forget e uri; silent (retract e uri); w) := by
  intro p ms x q hp hcomes
  rcases comes_changing_bind_iff.1 hcomes with ⟨r, hr, -, rfl⟩ | ⟨u, mid, rest, hforget, hrest, rfl⟩
  · rw [eq_of_forget_refused hr]
    exact ⟨hp, .inl ⟨rfl, rfl⟩⟩
  obtain ⟨hmid, key, hkey, -⟩ := orderly_of_forget hp hforget
  rcases comes_silent_bind_iff.1 hrest with ⟨r, hr, -⟩ | ⟨u', mid', hretract, hrest⟩
  · rcases retract_cases hr with ⟨r', hr', -⟩ | ⟨-, -, hx, -⟩
    · simp [hkey] at hr'
    · simp at hx
  · have hmid' : mid'.Orderly e := by
      rcases retract_cases hretract with ⟨-, -, -, rfl⟩ | ⟨-, -, -, hq, -⟩
      · exact hmid
      · exact hmid.of_same (by rw [hq])
    obtain ⟨hq, hanswered⟩ := hw _ _ _ _ hmid' hrest
    exact ⟨hq, .inr (hanswered.append_left [.changed])⟩

theorem heeds_dropOutside (hd : e.disk.Sane) (uri : String) :
    Heeds e (Watched.dropOutside e uri) := by
  refine .get_bind fun p => .bind (.answer _) fun known => ?_
  split
  · exact .bind (.log _) fun _ => heeds_drop_bind (answers_recompile hd).ignoring
  · exact .pure _

theorem heeds_remove (hd : e.disk.Sane) (uri : String) : Heeds e (Watched.remove e uri) :=
  heeds_forget_bind ((answers_recompile hd).ignoring.bind fun _ => .retract uri)

theorem heeds_close (hd : e.disk.Sane) (uri : String) : Heeds e (Watched.close e uri) := by
  unfold Watched.close
  cases Path.ofUri uri with
  | error r => exact .pure _
  | ok path =>
      refine .bind (.answer _) fun there => ?_
      split
      · exact .pure _
      · exact .bind (heeds_remove hd uri) fun _ => .pure _

/-- Taking over a text leaves the documents alone or is answered, unless it was taken over to be
compiled later. -/
theorem later_of_update (hd : e.disk.Sane) {uri content : String} {compileNow : Bool}
    {x : Except Refusal Bool} (hp : p.Orderly e)
    (hcomes : (Watched.update e uri content compileNow).Comes p ms x q) :
    q.Orderly e ∧ ((ms = [] ∧ q.documents = p.documents ∨ Answered q ms) ∨
      compileNow = false ∧ x = .ok true) := by
  unfold Watched.update at hcomes
  cases hpath : Path.ofUri uri with
  | error r =>
      simp only [hpath] at hcomes
      have hsay : Heeds e (do
          silent (say Level.debug ("Ignoring non-file document " ++ uri)); return false) :=
        .bind (.log _) fun _ => .pure _
      exact (hsay _ _ _ _ hp hcomes).imp_right .inl
  | ok path =>
      simp only [hpath] at hcomes
      split at hcomes
      · exact (Heeds.pure false _ _ _ _ hp hcomes).imp_right .inl
      next hsource =>
        have hsource : path.isSource = true := by simpa using hsource
        rcases comes_silent_bind_iff.1 (comes_get_bind_iff.1 hcomes) with
          ⟨r, hr, -, rfl⟩ | ⟨inside, mid, hinside, hasked⟩
        · obtain ⟨-, rfl⟩ := Action.ends_answer_iff.1 hr
          exact ⟨hp, .inl (.inl ⟨rfl, rfl⟩)⟩
        obtain ⟨-, rfl⟩ := Action.ends_answer_iff.1 hinside
        split at hasked
        · rcases comes_changing_bind_iff.1 hasked with
            ⟨r, hr, -⟩ | ⟨u, put, rest, hput, hrest, rfl⟩
          · exact absurd ((Action.ends_iff_of_eq rfl).1 hr).1 (by simp)
          obtain ⟨-, rfl⟩ := (Action.ends_iff_of_eq rfl).1 hput
          have hmid := orderly_of_documentsUpdate hp content hpath hsource
          cases compileNow with
          | true =>
              have hanswers : Answers e (do
                  ignoring (Watched.recompile e); return true) :=
                (answers_recompile hd).ignoring.bind fun _ => .pure _
              obtain ⟨hq, hanswered⟩ := hanswers _ _ _ _ hmid hrest
              exact ⟨hq, .inl (.inr (hanswered.append_left [.changed]))⟩
          | false =>
              obtain ⟨hx, rfl⟩ := Action.ends_pure_iff.1 hrest.ends
              exact ⟨hmid, .inr ⟨rfl, hx⟩⟩
        · have hdrop : Heeds e (do Watched.dropOutside e uri; return false) :=
            .bind (heeds_dropOutside hd uri) fun _ => .pure _
          exact (hdrop _ _ _ _ hp hasked).imp_right .inl

theorem heeds_update (hd : e.disk.Sane) (uri content : String) :
    Heeds e (Watched.update e uri content true) := by
  intro p ms x q hp hcomes
  obtain ⟨hq, hheeded | ⟨hlater, -⟩⟩ := later_of_update hd hp hcomes
  · exact ⟨hq, hheeded⟩
  · simp at hlater

/-! ### Changes to the whole workspace -/

/-- Without roots no document leaves the workspace. -/
theorem comes_dropLeaving_of_rootless {ss : List Source} (hroots : p.workspace.roots = [])
    {x : Except Refusal Unit} (h : (Watched.dropLeaving e ss).Comes p ms x q) :
    ms = [] ∧ x = .ok () ∧ q = p := by
  induction ss generalizing ms with
  | nil =>
      obtain ⟨rfl, rfl⟩ := Action.ends_pure_iff.1 h.ends
      exact ⟨h.told.symm, rfl, rfl⟩
  | cons s ss ih =>
      have hcontains : p.workspace.contains e.disk s.location = .ok true := by
        simp [Workspace.contains, hroots]
      rcases comes_silent_bind_iff.1 (comes_get_bind_iff.1 h) with
        ⟨r, hr, -⟩ | ⟨inside, mid, hinside, hrest⟩
      · simp [hcontains] at hr
      · obtain ⟨hsome, rfl⟩ := Action.ends_answer_iff.1 hinside
        obtain rfl := Except.ok.inj (hsome.trans hcontains)
        exact ih hrest

theorem heeds_setRoots_nil (hd : e.disk.Sane) : Heeds e (Watched.setRoots e []) := by
  intro p ms x q hp hcomes
  rcases comes_silent_bind_iff.1 hcomes with ⟨r, hr, -⟩ | ⟨roots, told, htold, hbehind⟩
  · exact absurd (Action.ends_pure_iff.1 hr).1 (by simp)
  obtain ⟨hroots, rfl⟩ := Action.ends_pure_iff.1 htold
  obtain rfl := Except.ok.inj hroots
  rcases comes_silent_bind_iff.1 hbehind with ⟨r, hr, -⟩ | ⟨u, rescoped, hrescoped, hsift⟩
  · exact absurd ((Action.ends_iff_of_eq rfl).1 hr).1 (by simp)
  obtain ⟨-, rfl⟩ := (Action.ends_iff_of_eq rfl).1 hrescoped
  have hrescoped : ({ told with workspace := ⟨[]⟩ } : Project).Orderly e := hp.of_same rfl
  rcases comes_bind_iff.1 (comes_get_bind_iff.1 hsift) with
    ⟨r, hr, -⟩ | ⟨u', sifted, ms', ms'', hsifted, hrest, rfl⟩
  · exact absurd (comes_dropLeaving_of_rootless rfl hr).2.1 (by simp)
  · obtain ⟨-, -, rfl⟩ := comes_dropLeaving_of_rootless rfl hsifted
    obtain ⟨hq, hanswered⟩ := (answers_recompile hd).ignoring _ _ _ _ hrescoped hrest
    exact ⟨hq, .inr (hanswered.append_left ms')⟩

/-- Replacing the documents by canonical ones is answered: the diagnostics of those that vanish can
be cleared, since their keys are URIs, and then the new ones are compiled. -/
theorem answers_of_replaced (hd : e.disk.Sane) (hp : p.Orderly e) {sources libraries : List Source}
    (hsources : ∀ s ∈ sources, s.Canonical e.disk.workingPath) {replaced : Project}
    (hreplaced : replaced.documents = (p.documents.replaceAll e.disk.workingPath sources).1)
    {x : Except Refusal Unit}
    (hcomes : (Watched.finishLoad e libraries
      (p.documents.replaceAll e.disk.workingPath sources).2).Comes replaced ms x q) :
    q.Orderly e ∧ Answered q ms := by
  have hvanished := Documents.vanished_replaceAll hd p.documents hsources
  rcases comes_silent_bind_iff.1 hcomes with ⟨r, hr, -⟩ | ⟨vanished, mid, hanswer, hequip⟩
  · obtain ⟨r', hr', -⟩ := mapError_eq_error_iff.1 (Action.ends_answer_iff.1 hr).1.symm
    simp [hvanished] at hr'
  obtain ⟨hsome, rfl⟩ := Action.ends_answer_iff.1 hanswer
  rw [hvanished] at hsome
  obtain rfl := Except.ok.inj hsome
  rcases comes_silent_bind_iff.1 hequip with ⟨r, hr, -⟩ | ⟨u, equipped, hequipped, hclear⟩
  · exact absurd ((Action.ends_iff_of_eq rfl).1 hr).1 (by simp)
  obtain ⟨-, rfl⟩ := (Action.ends_iff_of_eq rfl).1 hequipped
  rcases comes_silent_bind_iff.1 hclear with ⟨r, hr, -⟩ | ⟨u', cleared, hretracts, hcompile⟩
  · refine absurd (ok_of_retracts (fun key hkey => ?_) hr) (by simp)
    exact hp.canonicalUri_key hd (List.mem_filter.1 (List.mem_mergeSort.1 hkey)).1
  have hcleared : cleared.documents = (p.documents.replaceAll e.disk.workingPath sources).1 := by
    rw [ends_retracts hretracts]
    exact hreplaced
  exact (answers_recompile hd).ignoring _ _ _ _
    (orderly_replaceAll hd p.documents hsources hcleared) hcompile

theorem heeds_load (hd : e.disk.Sane) (uris references : List String) :
    Heeds e (Watched.load e uris references) := by
  intro p ms x q hp hcomes
  rcases Watched.load_cases hcomes with
    ⟨r, -, rfl, hlogged⟩ | ⟨sources, libraries, mid, rest, hgathered, hlogged, hrest, rfl⟩
  · exact ⟨hp.of_same hlogged.documents, .inl ⟨rfl, hlogged.documents⟩⟩
  · obtain ⟨hq, hanswered⟩ := answers_of_replaced hd hp
      (canonical_of_found hd (gather_eq_ok_iff.1 hgathered).1) rfl hrest
    exact ⟨hq, .inr (hanswered.append_left [.changed])⟩

end Npl.Project
