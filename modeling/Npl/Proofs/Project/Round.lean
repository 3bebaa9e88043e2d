import Npl.Proofs.Project.InStep

/-!
# One compilation an operation

Whatever an operation does, it compiles at most once. Before and after that it sends empty lists
only, and after it the documents stay as they are.

## Main definitions

* `Project.Quiet` — nothing was compiled, and only empty lists were sent.
* `Project.Round` — at most one compilation, and nothing but quiet around it.

## Main results

* `Project.compilesOnce_operation` — an operation is such a round.
-/

namespace Npl

/-! ### Quiet -/

/-- The event is neither a compilation nor a list with diagnostics. -/
def Event.isQuiet : Event → Bool
  | publish _ diagnostics => diagnostics.isEmpty
  | compile _ => false
  | log .. | trace _ => true

namespace Connection

/-- Only quiet events have happened since. -/
def Quiet (c c' : Connection) : Prop :=
  ∃ events, c'.journal = c.journal ++ events ∧ ∀ event ∈ events, event.isQuiet = true

namespace Quiet

variable {c c' c'' : Connection}

theorem of_journal (h : c'.journal = c.journal) : Quiet c c' :=
  ⟨[], by simp [h], by simp⟩

theorem note {event : Event} (h : event.isQuiet = true) : Quiet c (c.note event) :=
  ⟨[event], rfl, by simpa using h⟩

theorem trans (h : Quiet c c') (h' : Quiet c' c'') : Quiet c c'' := by
  obtain ⟨events, hevents, hquiet⟩ := h
  obtain ⟨events', hevents', hquiet'⟩ := h'
  refine ⟨events ++ events', by rw [hevents', hevents, List.append_assoc], ?_⟩
  intro event hmem
  rcases List.mem_append.1 hmem with hmem | hmem
  · exact hquiet event hmem
  · exact hquiet' event hmem

theorem log (c : Connection) (r : LogRecord) : Quiet c (c.log r) := by
  have htrace : ∀ level text, Quiet c (c.sendTrace level text) := by
    intro level text
    unfold sendTrace
    split
    · exact .note rfl
    · exact .of_journal rfl
  unfold Connection.log
  split
  · unfold forward
    split
    · split
      · exact .of_journal rfl
      · exact .note rfl
    · exact htrace _ _
  · exact .of_journal rfl

theorem publish_nil (c : Connection) (uri : String) : Quiet c (c.publish uri []) := by
  unfold publish
  split
  · exact .log c _
  · exact .note rfl

/-- Quiet sends empty lists only. -/
theorem notices (h : Quiet c c') :
    ∃ sent, c'.notices = c.notices ++ sent ∧ ∀ notice ∈ sent, notice.2 = [] := by
  obtain ⟨events, hevents, hquiet⟩ := h
  refine ⟨events.filterMap Event.notice?, ?_, ?_⟩
  · rw [Connection.notices, hevents, List.filterMap_append, ← Connection.notices]
  · intro notice hmem
    obtain ⟨event, hevent, hnotice⟩ := List.mem_filterMap.1 hmem
    have hevent := hquiet event hevent
    cases event with
    | publish uri diagnostics =>
        obtain rfl := Option.some.inj hnotice
        exact List.isEmpty_iff.1 hevent
    | log | trace | compile => simp [Event.notice?] at hnotice

end Quiet

end Connection

namespace Project

open Npl.Project.Action

variable {e : Surroundings} {p q s : Project}

/-- Nothing was compiled since, only empty lists were sent, and the editor was kept in step. -/
structure Quiet (p q : Project) : Prop where
  journal : Connection.Quiet p.display.connection q.display.connection
  inStep : ∀ client, Board.Faithful client p → Board.Faithful client q

instance : IsPreorder Project Quiet where
  refl _ := ⟨.of_journal rfl, fun _ => id⟩
  trans _ _ _ h h' := ⟨h.journal.trans h'.journal, fun client => h'.inStep client ∘ h.inStep client⟩

/-- Changes that concern nothing that is shown. -/
theorem Quiet.of_display (h : q.display = p.display) : Quiet p q :=
  ⟨.of_journal (by rw [h]), fun _ hp => hp.of_same (by rw [h]) (by rw [h]) (by rw [h])⟩

/-- In quiet the compiler does not run. -/
theorem Quiet.not_ran (h : Quiet p q) {sources : List Source} : ¬ Ran sources p q := by
  rintro ⟨earlier, hran⟩
  obtain ⟨events, hevents, hquiet⟩ := h.journal
  rw [hevents, List.append_assoc, List.prefix_append_right_inj] at hran
  have hmem : Event.compile (sources.map Source.location) ∈ events := hran.subset (by simp)
  exact absurd (hquiet _ hmem) (by simp [Event.isQuiet])

/-- Quiet before and after a run of the compiler. -/
theorem Quiet.ran {t : Project} (h : Quiet p q) {sources : List Source} (hran : Ran sources q s)
    (h' : Quiet s t) : Ran sources p t := by
  obtain ⟨events, hevents, -⟩ := h.journal
  obtain ⟨events', hevents', -⟩ := h'.journal
  obtain ⟨earlier, hearlier⟩ := hran.trans (hevents' ▸ List.prefix_append _ events')
  refine ⟨events ++ earlier, ?_⟩
  rwa [← List.append_assoc, ← hevents]

theorem quiet_log (r : LogRecord) : Respects Quiet (log r) := by
  intro p x q h
  refine ⟨?_, fun client hp => InStep.keeps h hp (inStep_log r)⟩
  obtain ⟨-, rfl⟩ := ends_log_iff.1 h
  exact .log _ r

theorem quiet_forget (uri : String) : Respects Quiet (forget e uri) := by
  intro p x q h
  rcases forget_cases h with ⟨-, -, -, rfl⟩ | ⟨key, -, -, rfl⟩
  · exact refl_of Quiet _
  · exact .of_display rfl

/-! ### Clearing -/

/-- At most diagnostics were cleared since. -/
structure Cleared (p q : Project) : Prop where
  quiet : Quiet p q
  same : q = { p with display := q.display }

instance : IsPreorder Project Cleared where
  refl p := ⟨refl_of Quiet p, rfl⟩
  trans p q s h h' := by
    refine ⟨trans_of Quiet h.quiet h'.quiet, ?_⟩
    rw [h'.same, h.same]

theorem cleared_retract (uri : String) : Respects Cleared (retract e uri) := by
  intro p x q h
  have hinStep : ∀ client, Board.Faithful client p → Board.Faithful client q :=
    fun client hp => InStep.keeps h hp (inStep_retract uri)
  unfold retract at h
  rw [ends_onDisplay_iff] at h
  rcases h with ⟨-, -, -, rfl⟩ | ⟨d, hd, -, rfl⟩
  · exact refl_of Cleared _
  · obtain ⟨⟨board, key, diagnostics⟩, hboard, hsent⟩ := bind_eq_ok_iff.1 hd
    obtain ⟨key', -, hpure⟩ := bind_eq_ok_iff.1 hboard
    obtain ⟨-, hnotice⟩ := Prod.mk.inj (pure_eq_ok_iff.1 hpure)
    obtain ⟨rfl, rfl⟩ := Prod.mk.inj hnotice
    obtain rfl := pure_eq_ok_iff.1 hsent
    exact ⟨⟨.publish_nil _ _, hinStep⟩, rfl⟩

theorem quiet_retract (uri : String) : Respects Quiet (retract e uri) :=
  fun _ _ _ h => ((cleared_retract uri).related h).quiet

/-! ### One compilation -/

/-- At most one compilation, quiet before it, and at most diagnostics cleared after it. -/
inductive Round (e : Surroundings) (p : Project) : Project → Prop
  | quiet {q : Project} (h : Quiet p q) : Round e p q
  | compiles {mid after q : Project} {x : Except Refusal (Option Outcome)} (hbefore : Quiet p mid)
      (hends : Ends (recompile e) mid x after) (hafter : Cleared after q) : Round e p q

/-- Quiet before a round. -/
theorem Round.after (h : Quiet p s) (h' : Round e s q) : Round e p q := by
  cases h' with
  | quiet hquiet => exact .quiet (trans_of Quiet h hquiet)
  | compiles hbefore hends hafter => exact .compiles (trans_of Quiet h hbefore) hends hafter

/-- The action compiles at most once, and there is only quiet around that. -/
def Action.CompilesOnce {α : Type} (e : Surroundings) (a : Action α) : Prop :=
  Respects (Round e) a

namespace Action.CompilesOnce

variable {α β : Type}

theorem of_quiet {a : Action α} (ha : Respects Quiet a) : CompilesOnce e a :=
  fun _ _ _ h => .quiet (ha.related h)

theorem discard {a : Action α} (ha : CompilesOnce e a) : CompilesOnce e (Functor.discard a) :=
  Respects.discard ha

/-- Quiet before a compilation. -/
theorem bind {a : Action α} {f : α → Action β} (ha : Respects Quiet a)
    (hf : ∀ x, CompilesOnce e (f x)) : CompilesOnce e (a >>= f) := by
  intro p x q h
  rcases ends_bind_iff.1 h with ⟨r, hr, -⟩ | ⟨y, mid, hy, hrest⟩
  · exact .quiet (ha.related hr)
  · exact .after (ha.related hy) ((hf y).related hrest)

/-- Clearing after a compilation. -/
theorem bind_clear {a : Action α} {f : α → Action β} (ha : CompilesOnce e a)
    (hf : ∀ x, Respects Cleared (f x)) : CompilesOnce e (a >>= f) := by
  intro p x q h
  rcases ends_bind_iff.1 h with ⟨r, hr, -⟩ | ⟨y, mid, hy, hrest⟩
  · exact ha.related hr
  · have hcleared := (hf y).related hrest
    cases ha.related hy with
    | quiet hquiet => exact .quiet (trans_of Quiet hquiet hcleared.quiet)
    | compiles hbefore hends hafter =>
        exact .compiles hbefore hends (trans_of Cleared hafter hcleared)

end Action.CompilesOnce

theorem compilesOnce_recompile : CompilesOnce e (recompile e) :=
  fun p _ q h => .compiles (refl_of Quiet p) h (refl_of Cleared q)

theorem compilesOnce_remove (uri : String) : CompilesOnce e (remove e uri) :=
  .bind (quiet_forget uri) fun _ =>
    .bind_clear compilesOnce_recompile.discard fun _ => cleared_retract uri

theorem compilesOnce_dropOutside (uri : String) : CompilesOnce e (dropOutside e uri) := by
  refine .bind .get fun p => .bind (.answer _) fun known => ?_
  split
  · exact .bind (quiet_log _) fun _ => .bind (quiet_forget uri) fun _ =>
      .bind (quiet_retract uri) fun _ => compilesOnce_recompile.discard
  · exact .of_quiet (.pure _)

theorem compilesOnce_update (uri content : String) (compileNow : Bool) :
    CompilesOnce e (update e uri content compileNow) := by
  unfold update
  split
  · exact .of_quiet (.bind (quiet_log _) fun _ => .pure _)
  split
  · exact .of_quiet (.pure _)
  refine .bind .get fun p => .bind (.answer _) fun inside => ?_
  split
  · refine .bind (.modifies fun _ => .of_display rfl) fun _ => ?_
    split
    · exact .bind_clear compilesOnce_recompile.discard fun _ => .pure _
    · exact .of_quiet (.pure _)
  · exact .bind_clear (compilesOnce_dropOutside uri) fun _ => .pure _

theorem compilesOnce_close (uri : String) : CompilesOnce e (close e uri) := by
  unfold close
  split
  · exact .of_quiet (.pure _)
  · refine .bind (.answer _) fun there => ?_
    split
    · exact .of_quiet (.pure _)
    · exact .bind_clear (compilesOnce_remove uri) fun _ => .pure _

theorem quiet_rootPaths (uris : List String) : Respects Quiet (rootPaths uris) := by
  induction uris with
  | nil => exact .pure _
  | cons uri uris ih =>
      unfold rootPaths
      split
      · exact .bind ih fun _ => .pure _
      · exact .bind (quiet_log _) fun _ => ih

theorem quiet_dropLeaving (ss : List Source) : Respects Quiet (dropLeaving e ss) := by
  induction ss with
  | nil => exact .pure _
  | cons s ss ih =>
      refine .bind .get fun p => .bind (.answer _) fun inside => ?_
      split
      · exact .bind (quiet_log _) fun _ => .bind (quiet_forget _) fun _ =>
          .bind (quiet_retract _) fun _ => ih
      · exact ih

theorem compilesOnce_setRoots (uris : List String) : CompilesOnce e (setRoots e uris) :=
  .bind (quiet_rootPaths uris) fun _ => .bind (.modifies fun _ => .of_display rfl) fun _ =>
    .bind .get fun _ => .bind (quiet_dropLeaving _) fun _ => compilesOnce_recompile.discard

theorem compilesOnce_load (uris references : List String) :
    CompilesOnce e (load e uris references) := by
  refine .bind (quiet_rootPaths uris) fun roots => .bind (.forM quiet_log _) fun _ =>
    .bind (.answer _) fun (sources, libraries) => ?_
  intro p x q h
  rw [ends_get_bind_iff, ends_set_bind_iff] at h
  have hfinish : CompilesOnce e (finishLoad e libraries
      (p.documents.replaceAll e.disk.workingPath sources).2) :=
    .bind (.answer _) fun _ => .bind (.modifies fun _ => .of_display rfl) fun _ =>
      .bind (.forM quiet_retract _) fun _ => compilesOnce_recompile.discard
  refine .after ?_ (hfinish.related h)
  exact .of_display rfl

/-- An operation compiles at most once, and there is only quiet around that. -/
theorem compilesOnce_operation (op : Operation) : CompilesOnce e (op.act e) := by
  cases op with
  | update uri content compileNow => exact (compilesOnce_update uri content compileNow).discard
  | remove uri => exact compilesOnce_remove uri
  | close uri => exact (compilesOnce_close uri).discard
  | setRoots uris => exact compilesOnce_setRoots uris
  | load uris references => exact compilesOnce_load uris references
  | recompile => exact compilesOnce_recompile.discard

end Project

end Npl
