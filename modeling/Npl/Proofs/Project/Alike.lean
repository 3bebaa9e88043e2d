import Npl.Proofs.Project.Current

/-!
# Projects that are alike

Two projects are alike if they agree in all that decides what is compiled: the documents, the roots
and the libraries. They may differ in what was compiled already, in what is shown, and in the
journal. The same action on two alike projects comes to the same result and leaves them alike, as
long as both have something to compile when they come to it: whether an action is refused never
depends on what is shown.

## Main definitions

* `Project.Alike` — alike projects.
* `Project.Action.Twin` — two actions that come to the same result and leave two projects alike.

## Main results

* `Project.Action.Twin.bind` — one action after another.
* `Project.alike_of_recompile` — recompiling leaves a project alike.
* `Project.twin_update`, `Project.twin_close`, `Project.twin_remove` — changes to documents.
-/

namespace Npl.Project

open Npl.Project.Action

/-! ### Alike projects -/

/-- The projects agree in all that decides what is compiled. -/
structure Alike (p q : Project) : Prop where
  sources : q.documents.sources = p.documents.sources
  changes : q.documents.changes = p.documents.changes
  workspace : q.workspace = p.workspace
  libraries : q.libraries = p.libraries

variable {e : Surroundings} {p q s : Project}

/-- Writing to the log leaves a project alike. -/
theorem Logged.alike (h : Logged p q) : Alike p q :=
  ⟨by rw [h.documents], by rw [h.documents], h.workspace, h.libraries⟩

namespace Alike

theorem refl (p : Project) : Alike p p :=
  ⟨rfl, rfl, rfl, rfl⟩

theorem symm (h : Alike p q) : Alike q p :=
  ⟨h.sources.symm, h.changes.symm, h.workspace.symm, h.libraries.symm⟩

theorem trans (h : Alike p q) (h' : Alike q s) : Alike p s :=
  ⟨h'.sources.trans h.sources, h'.changes.trans h.changes, h'.workspace.trans h.workspace,
    h'.libraries.trans h.libraries⟩

/-- Projects that differ in what is shown only. -/
theorem of_display (h : q = { p with display := q.display }) : Alike p q := by
  rw [h]
  exact ⟨rfl, rfl, rfl, rfl⟩

/-- Alike projects in which the same waits hold the same documents. -/
theorem documents (h : Alike p q) (hdirty : q.documents.dirty = p.documents.dirty) :
    q.documents = p.documents := by
  obtain ⟨hsources, hchanges, -, -⟩ := h
  revert hsources hchanges hdirty
  cases q.documents
  cases p.documents
  rintro rfl rfl rfl
  rfl

theorem all (h : Alike p q) : q.documents.all = p.documents.all := by
  rw [Documents.all, h.sources, Documents.all]

theorem candidates (h : Alike p q) : q.candidates e = p.candidates e := by
  rw [Project.candidates, h.all, h.workspace, Project.candidates]

theorem together (h : Alike p q) (documents : List Source) :
    q.together documents = p.together documents :=
  together_congr h.libraries documents

end Alike

/-! ### Twins -/

namespace Action

variable {α β : Type}

/-- The actions come to the same result on the two projects, and leave these alike. -/
def Twin (a b : Action α) (p q : Project) : Prop :=
  ∀ x y p' q', Ends a p x p' → Ends b q y q' → x = y ∧ Alike p' q'

namespace Twin

/-- One action after another. -/
theorem bind {a b : Action α} {f g : α → Action β} (h : Twin a b p q)
    (hnext : ∀ x p' q', Ends a p (.ok x) p' → Ends b q (.ok x) q' → Alike p' q' →
      Twin (f x) (g x) p' q') : Twin (a >>= f) (b >>= g) p q := by
  intro x y p' q' hp hq
  rcases ends_bind_iff.1 hp with ⟨r, hr, rfl⟩ | ⟨z, mid, hz, hf⟩
  · rcases ends_bind_iff.1 hq with ⟨r', hr', rfl⟩ | ⟨z', mid', hz', -⟩
    · obtain ⟨heq, halike⟩ := h _ _ _ _ hr hr'
      exact ⟨congrArg Except.error (Except.error.inj heq), halike⟩
    · exact absurd (h _ _ _ _ hr hz').1 (by simp)
  · rcases ends_bind_iff.1 hq with ⟨r', hr', -⟩ | ⟨z', mid', hz', hg⟩
    · exact absurd (h _ _ _ _ hz hr').1 (by simp)
    · obtain ⟨heq, halike⟩ := h _ _ _ _ hz hz'
      obtain rfl := Except.ok.inj heq
      exact hnext z mid mid' hz hz' halike _ _ _ _ hf hg

/-- Ignoring the results. -/
theorem discard {a b : Action α} (h : Twin a b p q) :
    Twin (Functor.discard a) (Functor.discard b) p q := by
  intro x y p' q' hp hq
  obtain ⟨x', hx, rfl⟩ := ends_discard_iff.1 hp
  obtain ⟨y', hy, rfl⟩ := ends_discard_iff.1 hq
  obtain ⟨rfl, halike⟩ := h _ _ _ _ hx hy
  exact ⟨rfl, halike⟩

theorem pure (h : Alike p q) (a : α) : Twin (Pure.pure a) (Pure.pure a) p q := by
  intro x y p' q' hp hq
  obtain ⟨rfl, rfl⟩ := ends_pure_iff.1 hp
  obtain ⟨rfl, rfl⟩ := ends_pure_iff.1 hq
  exact ⟨rfl, h⟩

/-- Looking at the projects, which are known. -/
theorem get_bind {f g : Project → Action β} (h : Twin (f p) (g q) p q) :
    Twin (get >>= f) (get >>= g) p q := by
  intro x y p' q' hp hq
  exact h _ _ _ _ (ends_get_bind_iff.1 hp) (ends_get_bind_iff.1 hq)

/-- An answer that both get. -/
theorem answer_bind {r r' : Except Refusal α} {f g : α → Action β} (h : Alike p q) (hr : r' = r)
    (hnext : ∀ a, r = .ok a → Twin (f a) (g a) p q) :
    Twin (answer r >>= f) (answer r' >>= g) p q := by
  subst hr
  refine .bind ?_ ?_
  · intro x y p' q' hp hq
    obtain ⟨rfl, rfl⟩ := ends_answer_iff.1 hp
    obtain ⟨rfl, rfl⟩ := ends_answer_iff.1 hq
    exact ⟨rfl, h⟩
  · intro x p' q' hp hq _
    obtain ⟨hx, rfl⟩ := ends_answer_iff.1 hp
    obtain ⟨-, rfl⟩ := ends_answer_iff.1 hq
    exact hnext x hx.symm

/-- Changes that leave the projects alike. -/
theorem modify_bind {f g : Project → Project} {a b : PUnit → Action β}
    (h : Twin (a ⟨⟩) (b ⟨⟩) (f p) (g q)) : Twin (modify f >>= a) (modify g >>= b) p q := by
  intro x y p' q' hp hq
  exact h _ _ _ _ (ends_modify_bind_iff.1 hp) (ends_modify_bind_iff.1 hq)

theorem set {p' q' : Project} (h : Alike p' q') :
    Twin (MonadStateOf.set p' : Action PUnit) (MonadStateOf.set q') p q := by
  intro x y p'' q'' hp hq
  obtain ⟨rfl, rfl⟩ := ends_set_iff.1 hp
  obtain ⟨rfl, rfl⟩ := ends_set_iff.1 hq
  exact ⟨rfl, h⟩

/-- The log may be written to differently. -/
theorem log (h : Alike p q) (r r' : LogRecord) : Twin (Project.log r) (Project.log r') p q := by
  intro x y p' q' hp hq
  obtain ⟨rfl, rfl⟩ := ends_log_iff.1 hp
  obtain ⟨rfl, rfl⟩ := ends_log_iff.1 hq
  exact ⟨rfl, h.sources, h.changes, h.workspace, h.libraries⟩

theorem log_bind {r r' : LogRecord} {f g : Unit → Action β} (h : Alike p q)
    (hnext : ∀ p' q', Logged p p' → Logged q q' → Alike p' q' → Twin (f ()) (g ()) p' q') :
    Twin (Project.log r >>= f) (Project.log r' >>= g) p q := by
  refine .bind (.log h r r') fun _ p' q' hp hq halike => ?_
  obtain ⟨-, rfl⟩ := ends_log_iff.1 hp
  obtain ⟨-, rfl⟩ := ends_log_iff.1 hq
  exact hnext _ _ (.log p r) (.log q r') halike

/-- What is shown may change differently, if it is refused for the same reasons. -/
theorem onDisplay {f g : Display → Except Refusal Display} (h : Alike p q)
    (hsame : ∀ r, f p.display = .error r ↔ g q.display = .error r) :
    Twin (Project.onDisplay f) (Project.onDisplay g) p q := by
  intro x y p' q' hp hq
  rcases ends_onDisplay_iff.1 hp with ⟨r, hr, rfl, rfl⟩ | ⟨d, hd, rfl, rfl⟩
  · rcases ends_onDisplay_iff.1 hq with ⟨r', hr', rfl, rfl⟩ | ⟨d', hd', -, -⟩
    · rw [(hsame r).1 hr] at hr'
      exact ⟨congrArg Except.error (Except.error.inj hr'), h⟩
    · simp [(hsame r).1 hr] at hd'
  · rcases ends_onDisplay_iff.1 hq with ⟨r', hr', -, -⟩ | ⟨d', hd', rfl, rfl⟩
    · simp [(hsame r').2 hr'] at hd
    · exact ⟨rfl, h.sources, h.changes, h.workspace, h.libraries⟩

end Twin

end Action

/-! ### Refusals of the display -/

section

variable {wd : Path} {d d' : Display} {r : Refusal}

/-- Whether a report is refused does not depend on what is shown. -/
theorem showReport_refused_iff {report : Report} {documents : List Source} :
    d.showReport wd report documents = .error r ↔ d'.showReport wd report documents = .error r := by
  have hboard : ∀ d : Display, d.showReport wd report documents = .error r ↔
      (Board.locate wd report.messages >>= fun _ => Board.keysOf wd documents) = .error r := by
    intro d
    simp only [Display.showReport, Board.showReport, bind_eq_error_iff, pure_ne_error]
    simp
  rw [hboard, hboard]

/-- Whether a fault is refused does not depend on what is shown. -/
theorem showFault_refused_iff {message : Message} :
    d.showFault wd message = .error r ↔ d'.showFault wd message = .error r := by
  have hboard : ∀ d : Display, d.showFault wd message = .error r ↔
      message.toDiagnostic.mapError Refusal.place = .error r := by
    intro d
    simp only [Display.showFault, Board.showFault, bind_eq_error_iff, pure_ne_error]
    simp
  rw [hboard, hboard]

/-- Whether clearing diagnostics is refused does not depend on what is shown. -/
theorem retract_refused_iff {uri : String} :
    d.retract wd uri = .error r ↔ d'.retract wd uri = .error r := by
  have hboard : ∀ d : Display, d.retract wd uri = .error r ↔
      (canonicalUri wd uri).mapError Refusal.uri = .error r := by
    intro d
    simp only [Display.retract, Board.retract, bind_eq_error_iff, pure_ne_error]
    simp
  rw [hboard, hboard]

end

/-! ### Recompiling -/

/-- Recompiling leaves a project alike, whatever it comes to. -/
theorem alike_of_recompile {x : Except Refusal (Option Outcome)} (h : Ends (recompile e) p x q) :
    Alike p q := by
  cases recompilation_of_ends h with
  | settled | refused => exact .refl p
  | empty _ _ hlogged => exact hlogged.alike
  | broken _ _ _ _ _ hlogged => exact hlogged.alike
  | fault _ _ _ _ _ hlogged htaken => exact hlogged.alike.trans (.of_display htaken.same)
  | finished _ _ _ _ _ hlogged htaken =>
      refine hlogged.alike.trans ?_
      rw [htaken.same]
      exact ⟨rfl, rfl, rfl, rfl⟩

/-- A fault is taken over in the same way. -/
theorem twin_takeFault (h : Alike p q) (message : Message) :
    Twin (takeFault e message) (takeFault e message) p q := by
  refine .get_bind (.answer_bind h (by rw [h.workspace]) fun inside _ => ?_)
  split
  · exact .log_bind h fun p' q' _ _ halike => .onDisplay halike fun _ => showFault_refused_iff
  · exact .log h _ _

/-- A report is taken over in the same way. -/
theorem twin_takeReport (h : Alike p q) (report : Report) (documents : List Source)
    (noted noted' : Keyed Nat) :
    Twin (takeReport e report documents noted) (takeReport e report documents noted') p q :=
  .modify_bind (.onDisplay ⟨h.sources, h.changes, h.workspace, h.libraries⟩
    fun _ => showReport_refused_iff)

theorem twin_runCompiler (h : Alike p q) (sources : List Source) :
    Twin (runCompiler e sources) (runCompiler e sources) p q := by
  intro x y p' q' hp hq
  obtain ⟨rfl, hp', -⟩ := ends_runCompiler hp
  obtain ⟨rfl, hq', -⟩ := ends_runCompiler hq
  exact ⟨rfl, hp'.alike.symm.trans (h.trans hq'.alike)⟩

/-- Alike projects that both have something to compile are compiled alike. -/
theorem twin_recompile (h : Alike p q) (hp : p.isSettled = false) (hq : q.isSettled = false) :
    Twin (recompile e) (recompile e) p q := by
  refine .get_bind ?_
  simp only [hp, hq]
  refine .answer_bind h h.candidates fun documents _ => ?_
  split
  · exact .log_bind h fun _ _ _ _ halike => .pure halike _
  refine .log_bind h fun _ _ _ _ halike => ?_
  have htogether : documents ++ q.librariesBeside documents =
      documents ++ p.librariesBeside documents := h.together documents
  rw [htogether]
  refine .bind (twin_runCompiler halike _) fun result p' q' _ _ halike => ?_
  rcases result with cause | (report | message)
  · exact .log_bind halike fun _ _ _ _ halike => .pure halike _
  · exact .bind (twin_takeReport halike _ _ _ _) fun _ _ _ _ _ halike => .pure halike _
  · exact .bind (twin_takeFault halike _) fun _ _ _ _ _ halike => .pure halike _

/-! ### Changes to documents -/

/-- Behind a change there is something to compile. -/
theorem unsettled_of_touch {d : Documents} {key : String} (h : p.documents = d.touch key) :
    p.isSettled = false := by
  rw [isSettled, h, dirty_touch, Bool.false_and]

/-- Forgetting a document leaves something to compile. -/
theorem unsettled_of_forget {uri : String} (h : Ends (forget e uri) p (.ok ()) q) :
    q.isSettled = false := by
  rcases forget_cases h with ⟨r, -, hx, -⟩ | ⟨key, -, -, rfl⟩
  · simp at hx
  · exact unsettled_of_touch rfl

/-- Clearing diagnostics leaves what was to compile. -/
theorem isSettled_of_retract {uri : String} {x : Except Refusal Unit}
    (h : Ends (retract e uri) p x q) : q.isSettled = p.isSettled := by
  rcases retract_cases h with ⟨r, -, -, rfl⟩ | ⟨key, -, -, hq, -⟩
  · rfl
  · exact isSettled_congr (by rw [hq]) (by rw [hq])

theorem twin_forget (h : Alike p q) (uri : String) : Twin (forget e uri) (forget e uri) p q := by
  intro x y p' q' hp hq
  rcases forget_cases hp with ⟨r, hr, rfl, rfl⟩ | ⟨key, hkey, rfl, rfl⟩
  · rcases forget_cases hq with ⟨r', hr', rfl, rfl⟩ | ⟨key', hkey', -, -⟩
    · rw [Except.error.inj (hr.symm.trans hr')]
      exact ⟨rfl, h⟩
    · simp [hr] at hkey'
  · rcases forget_cases hq with ⟨r', hr', -, -⟩ | ⟨key', hkey', rfl, rfl⟩
    · simp [hkey] at hr'
    · obtain rfl := Except.ok.inj (hkey.symm.trans hkey')
      refine ⟨rfl, ?_, ?_, h.workspace, h.libraries⟩
      · simp only [Documents.removeKey, Documents.touch, h.sources]
      · simp only [Documents.removeKey, Documents.touch, h.changes]

theorem twin_retract (h : Alike p q) (uri : String) : Twin (retract e uri) (retract e uri) p q :=
  .onDisplay h fun _ => retract_refused_iff

/-- Removing a document. Both projects have something to compile as soon as it is forgotten. -/
theorem twin_remove (h : Alike p q) (uri : String) : Twin (remove e uri) (remove e uri) p q := by
  refine .bind (twin_forget h uri) fun _ p' q' hp hq halike => ?_
  have hrecompile := twin_recompile (e := e) halike (unsettled_of_forget hp)
    (unsettled_of_forget hq)
  exact .bind hrecompile.discard fun _ _ _ _ _ halike => twin_retract halike uri

/-- Dropping a document that left the workspace. -/
theorem twin_dropOutside (h : Alike p q) (uri : String) :
    Twin (dropOutside e uri) (dropOutside e uri) p q := by
  have hcontains : q.documents.contains e.disk.workingPath uri =
      p.documents.contains e.disk.workingPath uri := by
    simp only [Documents.contains, h.sources]
  refine .get_bind (.answer_bind h (by rw [hcontains]) fun known _ => ?_)
  split
  · refine .log_bind h fun _ _ _ _ halike => ?_
    refine .bind (twin_forget halike uri) fun _ p' q' hp hq halike => ?_
    refine .bind (twin_retract halike uri) fun _ p'' q'' hp' hq' halike => ?_
    have hp'' := (isSettled_of_retract hp').trans (unsettled_of_forget hp)
    have hq'' := (isSettled_of_retract hq').trans (unsettled_of_forget hq)
    exact (twin_recompile halike hp'' hq'').discard
  · exact .pure h _

/-- Taking over the text of a source file leaves something to compile. -/
theorem unsettled_of_documentsUpdate (p : Project) (wd : Path) {uri : String} (content : String)
    {path : Path} (hpath : Path.ofUri uri = .ok path) (hsource : path.isSource = true) :
    ({ p with documents := (p.documents.update wd uri content).1 } :
      Project).isSettled = false :=
  unsettled_of_touch (congrArg Prod.fst (Documents.update_of_isSource hpath hsource))

/-- Taking over the text of a document leaves projects alike. -/
theorem Alike.documentsUpdate (h : Alike p q) (wd : Path) (uri content : String) :
    Alike { p with documents := (p.documents.update wd uri content).1 }
      { q with documents := (q.documents.update wd uri content).1 } := by
  cases hpath : Path.ofUri uri with
  | error r =>
      simp only [Documents.update, hpath]
      exact ⟨h.sources, h.changes, h.workspace, h.libraries⟩
  | ok path =>
      by_cases hsource : path.isSource = true
      · simp only [Documents.update, hpath, hsource, if_true, Documents.put, Documents.touch]
        refine ⟨?_, ?_, h.workspace, h.libraries⟩
        · simp only [h.sources]
        · simp only [h.changes]
      · simp only [Documents.update, hpath, hsource]
        exact ⟨h.sources, h.changes, h.workspace, h.libraries⟩

/-- Taking over the text of a document. -/
theorem twin_update (h : Alike p q) (uri content : String) (compileNow : Bool) :
    Twin (update e uri content compileNow) (update e uri content compileNow) p q := by
  unfold update
  split
  · exact .log_bind h fun _ _ _ _ halike => .pure halike _
  · next path hpath =>
      split
      · exact .pure h _
      · next hsource =>
          refine .get_bind (.answer_bind h (by rw [h.workspace]) fun inside _ => ?_)
          split
          · refine .modify_bind ?_
            have halike := h.documentsUpdate e.disk.workingPath uri content
            split
            · have hsource : path.isSource = true := by simpa using hsource
              have hp := unsettled_of_documentsUpdate p e.disk.workingPath content hpath hsource
              have hq := unsettled_of_documentsUpdate q e.disk.workingPath content hpath hsource
              exact .bind (twin_recompile halike hp hq).discard fun _ _ _ _ _ halike =>
                .pure halike _
            · exact .pure halike _
          · exact .bind (twin_dropOutside h uri) fun _ _ _ _ _ halike => .pure halike _

/-- Closing a document. -/
theorem twin_close (h : Alike p q) (uri : String) : Twin (close e uri) (close e uri) p q := by
  unfold close
  split
  · exact .pure h _
  · refine .answer_bind h rfl fun found _ => ?_
    split
    · exact .pure h _
    · exact .bind (twin_remove h uri) fun _ _ _ _ _ halike => .pure halike _

end Npl.Project
