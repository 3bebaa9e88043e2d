import Npl.Proofs.Project.Current

/-!
# What operations come to

Each operation has one of three effects. It writes to the log only; or it gives a settled project
other roots, with all documents in them, and nothing is compiled then; or the report is up to date
afterwards, as soon as the project is settled. The second effect is the only one that can leave the
report behind the documents.

## Main definitions

* `Project.Operation.Widens` — other roots bring documents in without any being compiled.
* `Project.Pending` — what has changed waits for being compiled.
* `Project.Effect` — the effects of operations.

## Main results

* `Project.effect_of_ends` — each operation has one of the effects.
-/

namespace Npl.Project

open Npl.Project.Action

variable {e : Surroundings} {p q : Project}

/-- Other roots bring in a document that did not count, and leave none out, while nothing waits for
being compiled. -/
def Operation.Widens (e : Surroundings) (p : Project) : Operation → Prop
  | setRoots uris =>
    p.isSettled = true ∧
      (∀ s ∈ p.documents.all, Workspace.contains ⟨rootsOf uris⟩ e.disk s.location = .ok true) ∧
      ∃ s ∈ p.documents.all, p.workspace.contains e.disk s.location = .ok false
  | update .. | remove _ | close _ | load .. | recompile => False

/-! ### Changes that wait -/

/-- What has changed waits for being compiled, unless no documents are left. -/
structure Pending (p q : Project) : Prop where
  waiting : q.isSettled = true → q.documents.all = []
  changed : q.documents.changes = p.documents.changes → q.documents.all = []

theorem Stamped.pending (h : Stamped p q) : Pending p q where
  waiting := fun hsettled => by simp [h.unsettled] at hsettled
  changed := fun heq => absurd heq (Nat.ne_of_gt h.later)

/-- The report is up to date as soon as the project is settled, and something has happened that
makes that necessary. -/
structure Renewed (e : Surroundings) (p q : Project) : Prop where
  tidy : q.Tidy e.disk
  current : Current e q
  changed : p.isSettled = true → q.documents.changes = p.documents.changes → q.documents.all = []

/-- As long as something waits there is nothing to be up to date. -/
theorem Pending.renewed (hq : q.Tidy e.disk) (h : Pending p q) : Renewed e p q where
  tidy := hq
  current := fun hsettled hne => absurd (h.waiting hsettled) hne
  changed := fun _ => h.changed

/-- What was waiting is compiled. -/
theorem Pending.recompile {mid : Project} (hd : e.disk.Sane) (hmid : mid.Tidy e.disk)
    (h : Pending p mid) {x : Except Refusal (Option Outcome)}
    (hends : Ends (Project.recompile e) mid x q) : Renewed e p q := by
  obtain ⟨htidy, hsources, hchanges, hsettled, hcurrent⟩ := recompiled_of_ends hd hmid hends
  have hall : q.documents.all = mid.documents.all := by
    rw [Documents.all, hsources, Documents.all]
  refine ⟨htidy, ?_, ?_⟩
  · cases hmidSettled : mid.isSettled with
    | false => exact hcurrent hmidSettled
    | true =>
        rw [hsettled hmidSettled]
        exact (h.renewed hmid).current
  · intro _ heq
    rw [hall]
    exact h.changed (hchanges ▸ heq)

/-! ### Clearing diagnostics -/

/-- Clearing diagnostics keeps a report up to date that says nothing about the key. -/
theorem Current.of_erase (h : Current e p) {key : String}
    (hq : q = { p with display := q.display })
    (hboard : q.display.board = ⟨p.display.board.shown.erase key⟩)
    (hkey : ∀ s ∈ p.documents.all, s.uri ≠ key) : Current e q := by
  intro hsettled hne
  have hdocuments : q.documents = p.documents := by rw [hq]
  have hlast : q.last? = p.last? := by rw [hq]
  have hscope : q.inScope e.disk = p.inScope e.disk :=
    inScope_congr (by rw [hdocuments]) (by rw [hq])
  rw [isSettled_congr hdocuments hlast] at hsettled
  rw [hdocuments] at hne
  obtain ⟨hscopeNe, report, ⟨hreport, hresult⟩, hshown⟩ := h hsettled hne
  rw [hscope]
  refine ⟨hscopeNe, report, ⟨hlast.trans hreport, ?_⟩, ?_⟩
  · rwa [together_congr (q := q) (p := p) (by rw [hq])]
  · intro located hlocated
    have hentries := hshown located hlocated
    rw [Shows, hboard, Keyed.erase, hentries]
    refine List.filter_eq_self.2 ?_
    intro entry hentry
    obtain ⟨s, hs, rfl⟩ := List.mem_map.1 hentry
    exact decide_eq_true (hkey s (List.mem_filter.1 hs).1)

/-! ### Effects -/

/-- The effects of operations. -/
inductive Effect (e : Surroundings) (p : Project) : Operation → Project → Prop
  /-- Only the log was written to. -/
  | idle {op : Operation} {q : Project} (hno : ¬ op.Widens e p) (hlogged : Logged p q) :
      Effect e p op q
  /-- The roots of a settled project are others, and all documents are in them. -/
  | rescoped {uris : List String} {q : Project} (hsettled : p.isSettled = true)
      (hlogged : Logged { p with workspace := ⟨rootsOf uris⟩ } q)
      (hin : ∀ s ∈ p.documents.all,
        Workspace.contains ⟨rootsOf uris⟩ e.disk s.location = .ok true) :
      Effect e p (.setRoots uris) q
  /-- The report is up to date as soon as the project is settled. -/
  | renewed {op : Operation} {q : Project} (hno : ¬ op.Widens e p) (hrenewed : Renewed e p q) :
      Effect e p op q

/-! ### Changes to one document -/

theorem Renewed.of_logged {mid : Project} (hlogged : Logged p mid) (h : Renewed e mid q) :
    Renewed e p q where
  tidy := h.tidy
  current := h.current
  changed := by
    rw [← isSettled_congr hlogged.documents hlogged.last?, ← hlogged.documents]
    exact h.changed

theorem logged_or_renewed_of_recompile (hd : e.disk.Sane) (hp : p.Tidy e.disk)
    {x : Except Refusal (Option Outcome)} (h : Ends (recompile e) p x q) :
    Logged p q ∨ Renewed e p q := by
  obtain ⟨htidy, -, -, hsettled, hcurrent⟩ := recompiled_of_ends hd hp h
  cases hopen : p.isSettled with
  | true =>
      rw [hsettled hopen]
      exact .inl (.refl p)
  | false =>
      refine .inr ⟨htidy, hcurrent hopen, ?_⟩
      intro hsettled
      simp [hopen] at hsettled

/-- Forgetting a document, compiling the others and clearing its diagnostics. -/
theorem logged_or_renewed_of_remove (hd : e.disk.Sane) (hp : p.Tidy e.disk) {uri : String}
    {x : Except Refusal Unit} (h : Ends (remove e uri) p x q) : Logged p q ∨ Renewed e p q := by
  unfold remove at h
  rcases ends_bind_iff.1 h with ⟨r, hr, -⟩ | ⟨u, mid, hforget, h⟩
  · rcases forget_cases hr with ⟨-, -, -, rfl⟩ | ⟨key, -, hx, -⟩
    · exact .inl (.refl _)
    · simp at hx
  obtain ⟨hmid, hstamped, key, hkey, hothers⟩ := stamped_of_forget hp hforget
  right
  rcases ends_bind_iff.1 h with ⟨r, hr, -⟩ | ⟨u', mid', hdiscard, hretract⟩
  · obtain ⟨y, hrecompile, -⟩ := ends_discard_iff.1 hr
    exact hstamped.pending.recompile hd hmid hrecompile
  · obtain ⟨y, hrecompile, -⟩ := ends_discard_iff.1 hdiscard
    have hrenewed := hstamped.pending.recompile hd hmid hrecompile
    have hsources := (recompiled_of_ends hd hmid hrecompile).sources
    rcases retract_cases hretract with ⟨r, -, -, rfl⟩ | ⟨key', hkey', -, hq, hboard⟩
    · exact hrenewed
    · obtain rfl := Except.ok.inj (hkey.symm.trans hkey')
      have hdocuments : q.documents = mid'.documents := by rw [hq]
      refine ⟨hrenewed.tidy.of_same hdocuments (by rw [hq]), ?_, ?_⟩
      · refine hrenewed.current.of_erase hq hboard ?_
        rw [Documents.all, hsources]
        exact hothers
      · rw [hdocuments]
        exact hrenewed.changed

/-- Dropping a document that left the workspace, and compiling the others. -/
theorem logged_or_renewed_of_dropOutside (hd : e.disk.Sane) (hp : p.Tidy e.disk) {uri : String}
    {x : Except Refusal Unit} (h : Ends (dropOutside e uri) p x q) :
    Logged p q ∨ Renewed e p q := by
  unfold dropOutside say at h
  rw [ends_get_bind_iff, ends_answer_bind_iff] at h
  rcases h with ⟨r, -, -, rfl⟩ | ⟨known, -, h⟩
  · exact .inl (.refl _)
  split at h
  · rw [ends_log_bind_iff] at h
    have hlogged := Logged.log p
      (.ofPart "service" Level.info ("Document " ++ uri ++ " is outside the workspace, dropping it"))
    rcases drop_cases (hlogged.tidy hp) h with ⟨-, -, rfl⟩ | ⟨mid, hmid, hdropped, hdiscard⟩
    · exact .inl hlogged
    · right
      obtain ⟨y, hrecompile, -⟩ := ends_discard_iff.1 hdiscard
      exact .of_logged hlogged (hdropped.pending.recompile hd hmid hrecompile)
  · obtain ⟨-, rfl⟩ := ends_pure_iff.1 h
    exact .inl (.refl _)

/-- The text of a source file that was taken over waits for being compiled. -/
theorem pending_of_update (hp : p.Tidy e.disk) {uri content : String} {path : Path}
    (hpath : Path.ofUri uri = .ok path) (hsource : path.isSource = true)
    (hnull : path.NullFree)
    (hq : q = { p with documents := (p.documents.update e.disk.workingPath uri content).1 }) :
    q.Tidy e.disk ∧ Stamped p q := by
  rw [Documents.update_of_isSource hpath hsource] at hq
  subst hq
  refine ⟨⟨hp.kept.put _ _, hp.placed.put ⟨rfl, Path.normal_of_ofUri hpath, hnull⟩, hp.roots⟩, ?_⟩
  exact stamped_of_touch (d := { p.documents with sources := p.documents.sources.set _ _ }) rfl rfl

/-- Taking over the text of a document. -/
theorem logged_or_renewed_of_update (hd : e.disk.Sane) (hp : p.Tidy e.disk)
    {uri content : String} {compileNow : Bool} (hnull : NullFreeUri uri) {x : Except Refusal Bool}
    (h : Ends (update e uri content compileNow) p x q) : Logged p q ∨ Renewed e p q := by
  unfold update at h
  split at h
  · unfold say at h
    rw [ends_log_bind_iff] at h
    obtain ⟨-, rfl⟩ := ends_pure_iff.1 h
    exact .inl (.log p _)
  next path hpath =>
    split at h
    · obtain ⟨-, rfl⟩ := ends_pure_iff.1 h
      exact .inl (.refl _)
    next hsource =>
      rw [ends_get_bind_iff, ends_answer_bind_iff] at h
      rcases h with ⟨r, -, -, rfl⟩ | ⟨inside, -, h⟩
      · exact .inl (.refl _)
      split at h
      · unfold onDocuments at h
        rw [ends_modify_bind_iff] at h
        have hsource : path.isSource = true := by simpa using hsource
        obtain ⟨hmid, hstamped⟩ := pending_of_update hp hpath hsource (hnull path hpath) rfl
        right
        split at h
        · obtain ⟨y, hdiscard, -⟩ := ends_bind_pure_iff.1 h
          obtain ⟨y', hrecompile, -⟩ := ends_discard_iff.1 hdiscard
          exact hstamped.pending.recompile hd hmid hrecompile
        · obtain ⟨-, rfl⟩ := ends_pure_iff.1 h
          exact hstamped.pending.renewed hmid
      · obtain ⟨y, hdrop, -⟩ := ends_bind_pure_iff.1 h
        exact logged_or_renewed_of_dropOutside hd hp hdrop

/-- Closing a document, which removes it if its file is gone. -/
theorem logged_or_renewed_of_close (hd : e.disk.Sane) (hp : p.Tidy e.disk) {uri : String}
    {x : Except Refusal Bool} (h : Ends (close e uri) p x q) : Logged p q ∨ Renewed e p q := by
  rcases close_cases h with rfl | ⟨y, hremove, -⟩
  · exact .inl (.refl _)
  · exact logged_or_renewed_of_remove hd hp hremove

/-! ### Changes to the whole workspace -/

/-- Other roots do not bring documents in without any being compiled if they leave one out. -/
theorem not_widens_of_left {uris : List String}
    (h : ∃ s ∈ p.documents.all, Workspace.contains ⟨rootsOf uris⟩ e.disk s.location = .ok false) :
    ¬ (Operation.setRoots uris).Widens e p := by
  obtain ⟨s, hs, hleft⟩ := h
  rintro ⟨-, hin, -⟩
  simp [hin s hs] at hleft

/-- Recompiling behind other roots that leave no document out. -/
theorem effect_of_rescoped {uris : List String} {mid : Project} (hd : e.disk.Sane)
    (hmid : mid.Tidy e.disk) (hlogged : Logged { p with workspace := ⟨rootsOf uris⟩ } mid)
    (hin : ∀ s ∈ p.documents.all, Workspace.contains ⟨rootsOf uris⟩ e.disk s.location = .ok true)
    {x : Except Refusal (Option Outcome)} (h : Ends (recompile e) mid x q) :
    q.Tidy e.disk ∧ Effect e p (.setRoots uris) q := by
  obtain ⟨hq, -, -, hsettled, hcurrent⟩ := recompiled_of_ends hd hmid h
  refine ⟨hq, ?_⟩
  have hsame : mid.isSettled = p.isSettled := isSettled_congr hlogged.documents hlogged.last?
  cases hopen : p.isSettled with
  | true =>
      rw [hsettled (hsame.trans hopen)]
      exact .rescoped hopen hlogged hin
  | false =>
      refine .renewed ?_ ⟨hq, hcurrent (hsame.trans hopen), ?_⟩
      · rintro ⟨hsettled, -⟩
        simp [hopen] at hsettled
      · intro hsettled
        simp [hopen] at hsettled

/-- Giving the workspace other roots. If a document left, or something was waiting, the others are
compiled. Otherwise nothing else happens. -/
theorem effect_of_setRoots (hd : e.disk.Sane) (hp : p.Tidy e.disk) {uris : List String}
    (hnull : ∀ uri ∈ uris, NullFreeUri uri) {x : Except Refusal Unit}
    (h : Ends (setRoots e uris) p x q) : q.Tidy e.disk ∧ Effect e p (.setRoots uris) q := by
  unfold setRoots at h
  rcases ends_bind_iff.1 h with ⟨r, hr, -⟩ | ⟨roots, told, hroots, h⟩
  · exact absurd (ends_rootPaths hr).1 (by simp)
  obtain ⟨hx, htold⟩ := ends_rootPaths hroots
  obtain rfl := Except.ok.inj hx
  rw [ends_modify_bind_iff, ends_get_bind_iff] at h
  have hlogged : Logged { p with workspace := ⟨rootsOf uris⟩ }
      { told with workspace := ⟨rootsOf uris⟩ } := ⟨by rw [htold.same], htold.journal⟩
  have hrooted : ({ p with workspace := ⟨rootsOf uris⟩ } : Project).Tidy e.disk :=
    ⟨hp.kept, hp.placed, fun root hroot => (clean_of_mem_rootsOf hnull hroot).nullFree⟩
  have htidy := hlogged.tidy hrooted
  have hplaced : ∀ s ∈ told.documents.all, s.Placed e.disk.workingPath :=
    fun s hs => htidy.placed_of_mem hs
  rcases ends_bind_iff.1 h with ⟨r, hdrop, -⟩ | ⟨u, mid, hdrop, hdiscard⟩
  · obtain ⟨hq, hcases⟩ := dropLeaving_cases hd htidy hplaced hdrop
    rcases hcases with ⟨hstamped, hleft⟩ | ⟨-, hx, -⟩
    · have hlater : Stamped p q := ⟨hstamped.unsettled, htold.documents ▸ hstamped.later⟩
      have hno := not_widens_of_left (p := p) (htold.documents ▸ hleft)
      exact ⟨hq, .renewed hno (hlater.pending.renewed hq)⟩
    · simp at hx
  · obtain ⟨y, hrecompile, -⟩ := ends_discard_iff.1 hdiscard
    obtain ⟨hmid, hcases⟩ := dropLeaving_cases hd htidy hplaced hdrop
    rcases hcases with ⟨hstamped, hleft⟩ | ⟨hquiet, -, hin⟩
    · have hlater : Stamped p mid := ⟨hstamped.unsettled, htold.documents ▸ hstamped.later⟩
      have hno := not_widens_of_left (p := p) (htold.documents ▸ hleft)
      have hrenewed := hlater.pending.recompile hd hmid hrecompile
      exact ⟨hrenewed.tidy, .renewed hno hrenewed⟩
    · have hin : ∀ s ∈ p.documents.all,
          Workspace.contains ⟨rootsOf uris⟩ e.disk s.location = .ok true :=
        fun s hs => hin s (htold.documents ▸ hs)
      exact effect_of_rescoped hd hmid (hlogged.trans hquiet) hin hrecompile

/-- Sources with canonical URIs that are added leave stamps. -/
theorem dirty_putAll {wd : Path} {d : Documents} {ss : List Source} (hne : ss ≠ [])
    (hss : ∀ s ∈ ss, canonicalUri wd s.uri = .ok s.uri) :
    (d.putAll wd ss).1.dirty.entries.isEmpty = false ∧ d.changes < (d.putAll wd ss).1.changes := by
  induction ss generalizing d with
  | nil => exact absurd rfl hne
  | cons s ss ih =>
      rw [Documents.putAll, hss s List.mem_cons_self]
      by_cases hss' : ss = []
      · subst hss'
        exact ⟨dirty_touch _ _, Nat.lt_succ_self _⟩
      · obtain ⟨hdirty, hlt⟩ := ih (d := d.put s.uri s) hss' fun t ht =>
          hss t (List.mem_cons_of_mem _ ht)
        exact ⟨hdirty, Nat.lt_trans (Nat.lt_succ_self _) hlt⟩

/-- Sources that replace all documents wait for being compiled. -/
theorem pending_of_replaceAll (hd : e.disk.Sane) {sources : List Source}
    (hss : ∀ s ∈ sources, s.Placed e.disk.workingPath)
    (hq : q.documents = (p.documents.replaceAll e.disk.workingPath sources).1) : Pending p q := by
  by_cases hsources : sources = []
  · subst hsources
    have hall : q.documents.all = [] := by
      rw [hq]
      rfl
    exact ⟨fun _ => hall, fun _ => hall⟩
  · obtain ⟨hdirty, hlt⟩ := dirty_putAll
      (d := { p.documents with sources := .empty, dirty := .empty }) hsources
      fun s hs => (hss s hs).canonical hd
    refine Stamped.pending ⟨?_, ?_⟩
    · rw [isSettled, hq]
      simp [Documents.replaceAll, hdirty]
    · rw [hq]
      exact hlt

/-- From the moment that all documents are replaced by what was found below the roots, something
waits until it is compiled. -/
theorem pending_of_found (hd : e.disk.Sane) {uris : List String}
    (hnull : ∀ uri ∈ uris, NullFreeUri uri) {sources : List Source}
    (hsources : (discover e.disk (rootsOf uris)).1 = .ok sources)
    (hdocuments : q.documents = (p.documents.replaceAll e.disk.workingPath sources).1)
    (hworkspace : q.workspace = ⟨rootsOf uris⟩) : q.Tidy e.disk ∧ Pending p q := by
  have hclean : ∀ root ∈ rootsOf uris, root.Clean :=
    fun root hroot => clean_of_mem_rootsOf hnull hroot
  have hfound : ∀ s ∈ sources, s.Placed e.disk.workingPath :=
    fun s hs => placed_of_mem_discover hd hclean hsources hs
  refine ⟨⟨?_, ?_, ?_⟩, pending_of_replaceAll hd hfound hdocuments⟩
  · rw [hdocuments]
    exact (Documents.kept_cleared _).putAll _ _
  · rw [hdocuments]
    exact Documents.Placed.putAll hd (by simp [Documents.Placed, Keyed.empty]) hfound
  · rw [hworkspace]
    exact fun root hroot => (hclean root hroot).nullFree

/-- Clearing the diagnostics of several documents changes what is shown only. -/
theorem ends_retracts {uris : List String} {x : Except Refusal PUnit}
    (h : Ends (uris.forM (retract e)) p x q) : q = { p with display := q.display } := by
  induction uris generalizing p with
  | nil =>
      obtain ⟨-, rfl⟩ := ends_pure_iff.1 h
      rfl
  | cons uri uris ih =>
      rcases ends_bind_iff.1 h with ⟨r, hr, -⟩ | ⟨u, mid, hretract, htail⟩
      · rcases retract_cases hr with ⟨-, -, -, rfl⟩ | ⟨key, -, -, hq, -⟩
        · rfl
        · exact hq
      · rcases retract_cases hretract with ⟨-, -, -, rfl⟩ | ⟨key, -, -, hmid, -⟩
        · exact ih htail
        · have hq := ih htail
          rw [hmid] at hq
          exact hq

/-- Replacing the roots, the libraries and all documents. -/
theorem logged_or_renewed_of_load (hd : e.disk.Sane) {uris references : List String}
    (hnull : ∀ uri ∈ uris, NullFreeUri uri) {x : Except Refusal Unit}
    (h : Ends (load e uris references) p x q) : Logged p q ∨ Renewed e p q := by
  rcases load_cases h with ⟨r, -, -, hlogged⟩ | ⟨sources, libraries, mid, hgathered, -, h⟩
  · exact .inl hlogged
  right
  have hsources := (gather_eq_ok_iff.1 hgathered).1
  unfold finishLoad at h
  rw [ends_answer_bind_iff] at h
  rcases h with ⟨r, -, -, hq⟩ | ⟨vanished, -, h⟩
  · obtain ⟨htidy, hpending⟩ :=
      pending_of_found (p := p) (q := q) hd hnull hsources (by rw [hq]) (by rw [hq])
    exact hpending.renewed htidy
  rw [ends_modify_bind_iff] at h
  rcases ends_bind_iff.1 h with ⟨r, hr, -⟩ | ⟨u'', cleared, hretracts, hdiscard⟩
  · have hq := ends_retracts hr
    obtain ⟨htidy, hpending⟩ :=
      pending_of_found (p := p) (q := q) hd hnull hsources (by rw [hq]) (by rw [hq])
    exact hpending.renewed htidy
  · obtain ⟨y, hrecompile, -⟩ := ends_discard_iff.1 hdiscard
    have hcleared := ends_retracts hretracts
    obtain ⟨htidy, hpending⟩ :=
      pending_of_found (p := p) (q := cleared) hd hnull hsources (by rw [hcleared])
        (by rw [hcleared])
    exact hpending.recompile hd htidy hrecompile

/-! ### All operations -/

/-- What is no other roots brings no documents in. -/
theorem effect_of_logged_or_renewed {op : Operation} (hp : p.Tidy e.disk)
    (hno : ¬ op.Widens e p) (h : Logged p q ∨ Renewed e p q) :
    q.Tidy e.disk ∧ Effect e p op q := by
  rcases h with hlogged | hrenewed
  · exact ⟨hlogged.tidy hp, .idle hno hlogged⟩
  · exact ⟨hrenewed.tidy, .renewed hno hrenewed⟩

/-- Each operation leaves the project tidy and has one of the effects. -/
theorem effect_of_ends (hd : e.disk.Sane) (hp : p.Tidy e.disk) {op : Operation} (hnull : op.NullFree)
    {x : Except Refusal Unit} (h : Ends (op.act e) p x q) :
    q.Tidy e.disk ∧ Effect e p op q := by
  cases op with
  | update uri content compileNow =>
      obtain ⟨y, hupdate, -⟩ := ends_discard_iff.1 h
      exact effect_of_logged_or_renewed hp id (logged_or_renewed_of_update hd hp hnull hupdate)
  | remove uri =>
      exact effect_of_logged_or_renewed hp id (logged_or_renewed_of_remove hd hp h)
  | close uri =>
      obtain ⟨y, hclose, -⟩ := ends_discard_iff.1 h
      exact effect_of_logged_or_renewed hp id (logged_or_renewed_of_close hd hp hclose)
  | setRoots uris => exact effect_of_setRoots hd hp hnull h
  | load uris references =>
      exact effect_of_logged_or_renewed hp id (logged_or_renewed_of_load hd hnull h)
  | recompile =>
      obtain ⟨y, hrecompile, -⟩ := ends_discard_iff.1 h
      exact effect_of_logged_or_renewed hp id (logged_or_renewed_of_recompile hd hp hrecompile)

end Npl.Project
