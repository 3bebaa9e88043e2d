import Mathlib.Data.Set.Insert
import Npl.Proofs.Project.Beyond

/-!
# Diagnostics of documents that are gone

A document that goes takes its diagnostics with it, whichever operation drops it, and whatever the
compiler makes of the others then. So without libraries, all that is shown belongs to documents.

There is one exception, which takes a document of more characters than the protocol can count. When
a document is removed, the others are compiled before its diagnostics are cleared. If that compiles
to a message that has no position in the protocol, removing ends there, and the diagnostics are left
behind. The exception is kept account of along a history.

## Main definitions

* `Project.Attended` — all that is shown belongs to documents, or was left behind.
* `Project.Operation.Leaves` — what an operation leaves behind.
* `Project.Kempt` — the projects that operations without libraries lead to.

## Main results

* `Project.attended_of_ends` — what each operation keeps.
* `Project.Kempt.key_of_shown` — what is shown belongs to documents.
* `Project.Kempt.key_of_shown_abandoned` — diagnostics that were left behind.
-/

namespace Npl.Project

open Npl.Project.Action

variable {disk : Disk} {p q : Project} {left : Set String}

/-! ### What is shown belongs to documents -/

/-- All that is shown belongs to documents, or was left behind; and there are no libraries. -/
structure Attended (disk : Disk) (left : Set String) (p : Project) : Prop where
  tidy : p.Tidy disk
  bare : p.libraries = []
  owned : ∀ uri ∈ p.display.board.shown.keys, uri ∈ p.documents.sources.keys ∨ uri ∈ left

namespace Attended

theorem of_same (h : p.Attended disk left) (hdocuments : q.documents = p.documents)
    (hworkspace : q.workspace = p.workspace) (hlibraries : q.libraries = p.libraries)
    (hboard : q.display.board = p.display.board) : q.Attended disk left :=
  ⟨h.tidy.of_same hdocuments hworkspace, hlibraries.trans h.bare, by
    rw [hboard, hdocuments]
    exact h.owned⟩

theorem of_logged (h : p.Attended disk left) (hlogged : Logged p q) : q.Attended disk left :=
  h.of_same hlogged.documents hlogged.workspace hlogged.libraries hlogged.board

theorem mono (h : p.Attended disk left) {left' : Set String} (hsub : left ⊆ left') :
    p.Attended disk left' :=
  ⟨h.tidy, h.bare, fun uri huri => (h.owned uri huri).imp_right fun hleft => hsub hleft⟩

/-- Without libraries, what is compiled together is the documents. -/
theorem mem_of_together (h : p.Attended disk left) {documents : List Source} {s : Source}
    (hs : s ∈ p.together documents) : s ∈ documents := by
  simpa [together, librariesBeside, h.bare] using hs

theorem orderly (h : p.Attended disk left) : p.Orderly ⟨disk, .standard⟩ :=
  h.tidy.orderly

/-- What the compiler tells is about documents. -/
theorem about (h : p.Attended disk left) {documents : List Source} {outcome : Outcome}
    (hcompiles : Compiles ⟨disk, .standard⟩ p documents outcome) {m : Message}
    (hm : m ∈ outcome.messages) : ∃ s ∈ p.documents.all, m.About s ∧
      m.location.toUri disk.workingPath ∈ p.documents.sources.keys := by
  obtain ⟨s, hs, habout⟩ := hcompiles.about m hm
  have hmem := mem_all_of_candidates hcompiles.inScope (h.mem_of_together hs)
  refine ⟨s, hmem, habout, ?_⟩
  obtain ⟨entry, hentry, rfl⟩ := List.mem_map.1 hmem
  rw [habout.1, ← (h.tidy.placed entry hentry).named, h.tidy.kept.named entry hentry]
  exact List.mem_map_of_mem hentry

end Attended

/-- Being attended afterwards if one was before. -/
instance isPreorder_attended (disk : Disk) (left : Set String) :
    IsPreorder Project fun p q => p.Attended disk left → q.Attended disk left where
  refl _ := id
  trans _ _ _ h h' := h' ∘ h

/-- The action lets all that is shown belong to documents. -/
def Action.Attends {α : Type} (disk : Disk) (left : Set String) (a : Action α) : Prop :=
  Respects (fun p q => p.Attended disk left → q.Attended disk left) a

theorem attends_log (r : LogRecord) : Attends disk left (log r) :=
  .log (fun _ _ hlogged h => h.of_logged hlogged) r

/-! ### Recompiling -/

theorem attends_recompile (hd : disk.Sane) :
    Attends disk left (recompile ⟨disk, .standard⟩) := by
  intro p x q h hp
  have halike := alike_of_recompile h
  refine ⟨(recompiled_of_ends hd hp.tidy h).tidy, halike.libraries.trans hp.bare, ?_⟩
  intro uri huri
  rw [halike.sources]
  cases recompilation_of_ends h with
  | settled | refused => exact hp.owned uri huri
  | empty _ _ hlogged => exact hp.owned uri (hlogged.board ▸ huri)
  | broken _ _ _ _ _ hlogged => exact hp.owned uri (hlogged.board ▸ huri)
  | @fault _ mid documents message _ _ hdocuments hne hresult _ hlogged htaken =>
      rcases htaken.board with hsame | ⟨notice, hshow⟩
      · rw [hsame, hlogged.board] at huri
        exact hp.owned uri huri
      · obtain ⟨d, -, hpure⟩ := bind_eq_ok_iff.1 hshow
        obtain ⟨hboard, -⟩ := Prod.mk.inj (pure_eq_ok_iff.1 hpure)
        rw [← hboard, hlogged.board, Keyed.keys_set] at huri
        have hkeys : uri ∈ p.display.board.shown.keys ∨
            uri = message.location.toUri disk.workingPath := by
          split at huri
          · exact .inl huri
          · simpa using huri
        rcases hkeys with hshown | rfl
        · exact hp.owned uri hshown
        · obtain ⟨-, -, -, hkey⟩ :=
            hp.about ⟨hdocuments, hne, hresult⟩ (List.mem_singleton_self message)
          exact .inl hkey
  | @finished _ mid documents report _ _ hdocuments _ _ _ hlogged htaken =>
      rcases htaken.shown with ⟨notices, -, hshow⟩ | ⟨r, -, hsame, -⟩
      · obtain ⟨located, hlocated, -⟩ := bind_eq_ok_iff.1 hshow
        have hentries := shown_of_board (hp.orderly.canonical_of_candidates hd hdocuments)
          (hp.orderly.nodup_of_candidates hdocuments) hlocated hshow
        rw [Keyed.keys, hentries, List.map_map] at huri
        obtain ⟨s, hs, rfl⟩ := List.mem_map.1 huri
        exact .inl (hp.orderly.mem_keys hd hdocuments hs).2
      · rw [hsame, hlogged.board] at huri
        exact hp.owned uri huri

/-- A message that has no position in the protocol is about a document of that many characters. -/
theorem Attended.exists_long (hp : p.Attended disk left) {documents : List Source}
    {outcome : Outcome} (hcompiles : Compiles ⟨disk, .standard⟩ p documents outcome) {m : Message}
    (hm : m ∈ outcome.messages) {f : PlaceError} (hf : m.toDiagnostic = .error f) :
    ∃ s ∈ p.documents.all, 2 ^ 31 ≤ s.content.length := by
  obtain ⟨s, hs, habout, -⟩ := hp.about hcompiles hm
  refine ⟨s, hs, not_lt.1 fun hshort => ?_⟩
  obtain ⟨-, -, -, d, hd, -⟩ := habout.exists_diagnostic hshort
  simp [hf] at hd

/-- A fault is refused only because it has no position in the protocol. -/
theorem Attended.place_of_takeFault (hd : disk.Sane) (hp : p.Attended disk left)
    {documents : List Source} {message : Message}
    (hcompiles : Compiles ⟨disk, .standard⟩ p documents (.fault message)) {r : Refusal}
    (h : Ends (takeFault ⟨disk, .standard⟩ message) p (.error r) q) :
    ∃ f, message.toDiagnostic = .error f ∧ r = .place f := by
  obtain ⟨s, hs, habout, -⟩ := hp.about hcompiles (List.mem_singleton_self message)
  obtain ⟨inside, hinside⟩ := hp.tidy.exists_contains hd hs
  unfold takeFault say at h
  rw [ends_get_bind_iff, habout.1, ends_answer_bind_iff] at h
  rcases h with ⟨r', hr', -⟩ | ⟨inside', -, h⟩
  · simp [hinside] at hr'
  split at h
  · rw [ends_log_bind_iff, ends_onDisplay_iff] at h
    rcases h with ⟨r', hshow, hr, -⟩ | ⟨display, -, hx, -⟩
    · obtain rfl := Except.error.inj hr
      rcases bind_eq_error_iff.1 hshow with hboard | ⟨board, -, hpure⟩
      · exact Board.place_of_showFault hboard
      · exact absurd hpure pure_ne_error
    · simp at hx
  · exact absurd (ends_log_iff.1 h).1 (by simp)

/-- A report is refused only because one of its messages has no position in the protocol. -/
theorem Attended.place_of_takeReport (hd : disk.Sane) (hp : p.Attended disk left)
    {documents : List Source} {report : Report} {noted : Keyed Nat}
    (hdocuments : p.candidates ⟨disk, .standard⟩ = .ok documents) {r : Refusal}
    (h : Ends (takeReport ⟨disk, .standard⟩ report documents noted) p (.error r) q) :
    ∃ m ∈ report.messages, ∃ f, m.toDiagnostic = .error f ∧ r = .place f := by
  unfold takeReport at h
  rw [ends_modify_bind_iff, ends_onDisplay_iff] at h
  rcases h with ⟨r', hshow, hr, -⟩ | ⟨display, -, hx, -⟩
  · obtain rfl := Except.error.inj hr
    -- The documents are canonical, so that their keys can be told.
    have hkeys := keysOf_eq (hp.orderly.canonical_of_candidates hd hdocuments)
    exact Board.place_of_showReport hkeys (board_refuses_of_showReport hshow)
  · simp at hx

/-- Recompiling is refused only because of a message that has no position in the protocol, and only
if there is a document of that many characters. -/
theorem Attended.refused_of_recompile (hd : disk.Sane) (hp : p.Attended disk left) {r : Refusal}
    (h : Ends (recompile ⟨disk, .standard⟩) p (.error r) q) :
    (∃ f, r = .place f) ∧ ∃ s ∈ q.documents.all, 2 ^ 31 ≤ s.content.length := by
  rw [(alike_of_recompile h).all]
  generalize hx : (Except.error r : Except Refusal (Option Outcome)) = x at h
  cases taking_of_recompile h with
  | idle _ _ hrefused =>
      have hr := hrefused r hx.symm
      rw [hp.tidy.candidates (e := ⟨disk, .standard⟩) hd] at hr
      simp at hr
  | @takes documents outcome mid _ y hcompiles hmute _ htake =>
      obtain rfl := map_eq_error_iff.1 hx.symm
      have hmid : mid.Attended disk left := by
        rw [hmute.same]
        exact hp.of_same rfl rfl rfl rfl
      have hcompiles' := hcompiles.of_alike (.of_display (by rw [hmute.same]) : Alike p mid)
      cases outcome with
      | fault message =>
          obtain ⟨f, hf, rfl⟩ := hmid.place_of_takeFault hd hcompiles' htake
          exact ⟨⟨f, rfl⟩, hp.exists_long hcompiles (List.mem_singleton_self message) hf⟩
      | finished report =>
          obtain ⟨m, hm, f, hf, rfl⟩ := hmid.place_of_takeReport hd hcompiles'.inScope htake
          exact ⟨⟨f, rfl⟩, hp.exists_long hcompiles hm hf⟩

/-! ### Dropping documents -/

/-- A document that is forgotten leaves its diagnostics behind at first. -/
theorem Attended.forget {e : Surroundings} (hp : p.Attended e.disk left) {uri : String}
    {x : Except Refusal Unit} (h : Ends (Project.forget e uri) p x q) :
    (∃ r, x = .error r ∧ q = p) ∨ ∃ key, canonicalUri e.disk.workingPath uri = .ok key ∧
      x = .ok () ∧ key ∉ q.documents.sources.keys ∧ q.Attended e.disk (insert key left) := by
  rcases forget_cases h with ⟨r, -, hx, hq⟩ | ⟨key, hkey, rfl, rfl⟩
  · exact .inl ⟨.uri r, hx, hq⟩
  obtain ⟨htidy, -⟩ := stamped_of_forget hp.tidy h
  have hkeys : (p.documents.removeKey key).1.sources.keys =
      p.documents.sources.keys.filter (· ≠ key) := Keyed.keys_erase _ _
  refine .inr ⟨key, hkey, rfl, ?_, htidy, hp.bare, fun other hother => ?_⟩
  · simp [hkeys]
  · by_cases heq : other = key
    · exact .inr (.inl heq)
    · refine (hp.owned other hother).imp (fun hmem => ?_) .inr
      simp [hkeys, hmem, heq]

/-- Clearing diagnostics leaves nothing behind. -/
theorem Attended.retract {e : Surroundings} {key : String}
    (hp : p.Attended e.disk (insert key left)) {uri : String}
    (hkey : canonicalUri e.disk.workingPath uri = .ok key) {x : Except Refusal Unit}
    (h : Ends (Project.retract e uri) p x q) : x = .ok () ∧ q.Attended e.disk left := by
  rcases retract_cases h with ⟨r, hr, -⟩ | ⟨key', hkey', hx, hq, hboard⟩
  · simp [hkey] at hr
  obtain rfl := Except.ok.inj (hkey.symm.trans hkey')
  refine ⟨hx, ?_⟩
  have hdocuments : q.documents = p.documents := by rw [hq]
  refine ⟨hp.tidy.of_same hdocuments (by rw [hq]), by rw [hq]; exact hp.bare, ?_⟩
  intro other hother
  rw [hboard, Keyed.keys_erase, List.mem_filter] at hother
  obtain ⟨hmem, hne⟩ := hother
  rw [hdocuments]
  refine (hp.owned other hmem).imp_right fun hleft => ?_
  exact hleft.resolve_left (by simpa using hne)

/-- A document that is dropped takes its diagnostics with it. -/
theorem attends_drop {e : Surroundings} {uri : String} {f : Unit → Action Unit}
    (hf : ∀ u, Attends e.disk left (f u)) :
    Attends e.disk left (forget e uri >>= fun _ => retract e uri >>= f) := by
  intro p x q h hp
  rcases ends_bind_iff.1 h with ⟨r, hr, -⟩ | ⟨u, forgotten, hforget, h⟩
  · rcases hp.forget hr with ⟨-, -, rfl⟩ | ⟨-, -, hx, -⟩
    · exact hp
    · simp at hx
  rcases hp.forget hforget with ⟨r, hx, -⟩ | ⟨key, hkey, -, -, hforgotten⟩
  · simp at hx
  rcases ends_bind_iff.1 h with ⟨r, hr, -⟩ | ⟨u', mid, hretract, hrest⟩
  · exact absurd (hforgotten.retract hkey hr).1 (by simp)
  · exact (hf u').related hrest (hforgotten.retract hkey hretract).2

theorem attends_dropOutside (hd : disk.Sane) (uri : String) :
    Attends disk left (dropOutside ⟨disk, .standard⟩ uri) := by
  refine .bind .get fun p => .bind (.answer _) fun known => ?_
  split
  · exact .bind (attends_log _) fun _ => attends_drop fun _ => (attends_recompile hd).discard
  · exact .pure _

/-- A text that is taken over belongs to a document. -/
theorem Attended.text (hp : p.Attended disk left) {uri : String} (hnull : NullFreeUri uri)
    (content : String) {path : Path} (hpath : Path.ofUri uri = .ok path)
    (hsource : path.isSource = true) :
    Attended disk left
      { p with documents := (p.documents.update disk.workingPath uri content).1 } := by
  refine ⟨(pending_of_update (e := ⟨disk, .standard⟩) hp.tidy hpath hsource (hnull path hpath)
    rfl).1, hp.bare, fun other hother => (hp.owned other hother).imp_left fun hmem => ?_⟩
  rw [Documents.update_of_isSource hpath hsource]
  change other ∈ (p.documents.sources.set _ _).keys
  rw [Keyed.keys_set]
  split
  · exact hmem
  · exact List.mem_append_left _ hmem

theorem attends_update (hd : disk.Sane) {uri : String} (hnull : NullFreeUri uri)
    (content : String) (compileNow : Bool) :
    Attends disk left (update ⟨disk, .standard⟩ uri content compileNow) := by
  unfold update
  split
  · exact .bind (attends_log _) fun _ => .pure _
  next path hpath =>
    split
    · exact .pure _
    next hsource =>
      refine .bind .get fun p => .bind (.answer _) fun inside => ?_
      split
      · refine .bind (.modifies fun p hp =>
          hp.text hnull content hpath (by simpa using hsource)) fun _ => ?_
        split
        · exact .bind (attends_recompile hd).discard fun _ => .pure _
        · exact .pure _
      · exact .bind (attends_dropOutside hd uri) fun _ => .pure _

/-! ### The whole workspace -/

theorem attends_dropLeaving (ss : List Source) :
    Attends disk left (dropLeaving ⟨disk, .standard⟩ ss) := by
  induction ss with
  | nil => exact .pure _
  | cons s ss ih =>
      refine .bind .get fun p => .bind (.answer _) fun inside => ?_
      split
      · exact .bind (attends_log _) fun _ => attends_drop fun _ => ih
      · exact ih

theorem attended_of_setRoots (hd : disk.Sane) (hp : p.Attended disk left) {uris : List String}
    (hnull : ∀ uri ∈ uris, NullFreeUri uri) {x : Except Refusal Unit}
    (h : Ends (setRoots ⟨disk, .standard⟩ uris) p x q) : q.Attended disk left := by
  unfold setRoots at h
  rcases ends_bind_iff.1 h with ⟨r, hr, -⟩ | ⟨roots, told, hroots, h⟩
  · exact absurd (ends_rootPaths hr).1 (by simp)
  obtain ⟨hx, htold⟩ := ends_rootPaths hroots
  obtain rfl := Except.ok.inj hx
  rw [ends_modify_bind_iff, ends_get_bind_iff] at h
  have htold := hp.of_logged htold
  have hrooted : Attended disk left { told with workspace := ⟨rootsOf uris⟩ } :=
    ⟨⟨htold.tidy.kept, htold.tidy.placed,
      fun root hroot => (clean_of_mem_rootsOf hnull hroot).nullFree⟩, htold.bare, htold.owned⟩
  have hrest : Attends disk left (dropLeaving ⟨disk, .standard⟩ told.documents.all >>= fun _ =>
      discard (recompile ⟨disk, .standard⟩)) :=
    .bind (attends_dropLeaving _) fun _ => (attends_recompile hd).discard
  exact hrest.related h hrooted

/-- Clearing the diagnostics of all that was left behind leaves nothing of it. -/
theorem Attended.retracts {e : Surroundings} {keys : List String}
    (hcanonical : ∀ key ∈ keys, canonicalUri e.disk.workingPath key = .ok key)
    (hp : p.Attended e.disk (left ∪ {key | key ∈ keys})) {x : Except Refusal PUnit}
    (h : Ends (keys.forM (Project.retract e)) p x q) : x = .ok ⟨⟩ ∧ q.Attended e.disk left := by
  induction keys generalizing p with
  | nil =>
      obtain ⟨rfl, rfl⟩ := ends_pure_iff.1 h
      exact ⟨rfl, hp.mono (by simp)⟩
  | cons key keys ih =>
      have hkey := hcanonical key List.mem_cons_self
      have hfirst : p.Attended e.disk (insert key (left ∪ {key | key ∈ keys})) := by
        refine hp.mono fun other hother => ?_
        rcases hother with hleft | hmem
        · exact .inr (.inl hleft)
        · exact (List.mem_cons.1 hmem).imp_right .inr
      rcases ends_bind_iff.1 h with ⟨r, hr, -⟩ | ⟨u, mid, hretract, htail⟩
      · exact absurd (hfirst.retract hkey hr).1 (by simp)
      · exact ih (fun other hother => hcanonical other (List.mem_cons_of_mem _ hother))
          (hfirst.retract hkey hretract).2 htail

/-- What vanished is cleared before the others are compiled. -/
theorem Attended.finishLoad (hd : disk.Sane) {vanished : List String}
    (hcanonical : ∀ key ∈ vanished, canonicalUri disk.workingPath key = .ok key)
    (hp : p.Attended disk (left ∪ {key | key ∈ vanished})) {x : Except Refusal Unit}
    (h : Ends (Project.finishLoad ⟨disk, .standard⟩ [] (.ok vanished)) p x q) :
    q.Attended disk left := by
  unfold Project.finishLoad at h
  rw [ends_answer_bind_iff] at h
  rcases h with ⟨r, hr, -, -⟩ | ⟨keys, hkeys, h⟩
  · obtain ⟨r', hr', -⟩ := mapError_eq_error_iff.1 hr
    simp at hr'
  obtain rfl := Except.ok.inj (mapError_eq_ok_iff.1 hkeys)
  have hsame : ∀ key, key ∈ vanished.mergeSort (fun a b => !(b < a)) ↔ key ∈ vanished :=
    fun key => List.mem_mergeSort
  generalize vanished.mergeSort (fun a b => !(b < a)) = keys at h hsame
  rw [ends_modify_bind_iff] at h
  have hstart : Attended disk (left ∪ {key | key ∈ keys}) { p with libraries := [] } := by
    simp only [hsame]
    exact ⟨hp.tidy.of_same rfl rfl, rfl, hp.owned⟩
  have hsorted : ∀ key ∈ keys, canonicalUri disk.workingPath key = .ok key :=
    fun key hkey => hcanonical key ((hsame key).1 hkey)
  rcases ends_bind_iff.1 h with ⟨r, hr, -⟩ | ⟨u, cleared, hretracts, hdiscard⟩
  · exact absurd (hstart.retracts (e := ⟨disk, .standard⟩) hsorted hr).1 (by simp)
  · have hcleared := (hstart.retracts (e := ⟨disk, .standard⟩) hsorted hretracts).2
    exact (attends_recompile hd).discard.related hdiscard hcleared

theorem attended_of_load (hd : disk.Sane) (hp : p.Attended disk left)
    {uris references : List String} (hnull : ∀ uri ∈ uris, NullFreeUri uri)
    (hplain : ∀ libraries, (Library.load disk references (rootsOf uris)).1 = .ok libraries →
      libraries = []) {x : Except Refusal Unit}
    (h : Ends (load ⟨disk, .standard⟩ uris references) p x q) : q.Attended disk left := by
  rcases load_cases h with ⟨r, -, -, hlogged⟩ | ⟨sources, libraries, mid, hgathered, hlogged, h⟩
  · exact hp.of_logged hlogged
  obtain ⟨hsources, hlibraries⟩ := gather_eq_ok_iff.1 hgathered
  obtain rfl := hplain libraries hlibraries
  have hfound : ∀ s ∈ sources, s.Canonical disk.workingPath :=
    canonical_of_found (e := ⟨disk, .standard⟩) hd hsources
  simp only [Documents.vanished_replaceAll hd p.documents hfound] at h
  refine Attended.finishLoad hd ?_ ?_ h
  · intro key hkey
    obtain ⟨entry, hentry, rfl⟩ := List.mem_map.1 (List.mem_filter.1 hkey).1
    rw [← hp.tidy.kept.named entry hentry]
    exact (hp.tidy.placed entry hentry).canonical hd
  · have htidy := (pending_of_found (p := p) (e := ⟨disk, .standard⟩)
      (q := { mid with
        workspace := ⟨rootsOf uris⟩
        documents := (p.documents.replaceAll disk.workingPath sources).1 })
      hd hnull hsources rfl rfl).1
    refine ⟨htidy, hlogged.libraries.trans hp.bare, fun key hkey => ?_⟩
    -- What was shown belonged to a document, which is found again or has vanished.
    rcases hp.owned key (hlogged.board ▸ hkey) with hbefore | hleft
    · by_cases hfoundAgain :
          key ∈ (p.documents.replaceAll disk.workingPath sources).1.sources.keys
      · exact .inl hfoundAgain
      · refine .inr (.inr (List.mem_filter.2 ⟨hbefore, ?_⟩))
        simpa [Keyed.contains_iff, ← Bool.not_eq_true] using hfoundAgain
    · exact .inr (.inl hleft)

/-! ### Removing documents -/

/-- The compiler had a message about a document of more characters than the protocol can count, and
the action was refused therefore. -/
structure Uncountable {α : Type} (x : Except Refusal α) (q : Project) : Prop where
  refused : ∃ f, x = .error (.place f)
  long : ∃ s ∈ q.documents.all, 2 ^ 31 ≤ s.content.length

/-- A document that is removed takes its diagnostics with it, unless compiling the others is
refused. -/
theorem Attended.remove (hd : disk.Sane) (hp : p.Attended disk left) {uri : String}
    {x : Except Refusal Unit} (h : Ends (Project.remove ⟨disk, .standard⟩ uri) p x q) :
    q.Attended disk left ∨ Uncountable x q ∧
      ∃ key, canonicalUri disk.workingPath uri = .ok key ∧ q.Attended disk (insert key left) := by
  unfold Project.remove at h
  rcases ends_bind_iff.1 h with ⟨r, hr, -⟩ | ⟨u, forgotten, hforget, h⟩
  · rcases hp.forget hr with ⟨-, -, rfl⟩ | ⟨-, -, hx, -⟩
    · exact .inl hp
    · simp at hx
  rcases hp.forget hforget with ⟨r, hx, -⟩ | ⟨key, hkey, -, -, hforgotten⟩
  · simp at hx
  rcases ends_bind_iff.1 h with ⟨r, hr, rfl⟩ | ⟨u', compiled, hcompile, hretract⟩
  · obtain ⟨y, hrecompile, hy⟩ := ends_discard_iff.1 hr
    obtain rfl := map_eq_error_iff.1 hy.symm
    obtain ⟨⟨f, rfl⟩, hlong⟩ := hforgotten.refused_of_recompile hd hrecompile
    exact .inr ⟨⟨⟨f, rfl⟩, hlong⟩, key, hkey, (attends_recompile hd).related hrecompile hforgotten⟩
  · have hcompiled := (attends_recompile hd).discard.related hcompile hforgotten
    exact .inl (hcompiled.retract (e := ⟨disk, .standard⟩) hkey hretract).2

/-- What an operation leaves behind: the diagnostics of the document that it was to remove, if it
was refused half-way. -/
def Operation.Leaves (wd : Path) (op : Operation) (x : Except Refusal Unit) (q : Project) :
    Set String :=
  {key | Uncountable x q ∧ ∃ uri, (op = .remove uri ∨ op = .close uri) ∧
    canonicalUri wd uri = .ok key}

/-- Other operations leave nothing behind. -/
theorem leaves_eq_empty {wd : Path} {op : Operation} {x : Except Refusal Unit}
    (hremove : ∀ uri, op ≠ .remove uri) (hclose : ∀ uri, op ≠ .close uri) :
    op.Leaves wd x q = ∅ := by
  refine Set.eq_empty_of_forall_notMem fun key => ?_
  rintro ⟨-, uri, rfl | rfl, -⟩
  · exact hremove uri rfl
  · exact hclose uri rfl

/-- An operation that does not bring libraries along. -/
def Operation.Bare (disk : Disk) : Operation → Prop
  | load uris references => ∀ libraries,
      (Library.load disk references (rootsOf uris)).1 = .ok libraries → libraries = []
  | update .. | remove _ | close _ | setRoots _ | recompile => True

/-- What removing a document leaves behind, for the operations that remove one. -/
theorem attended_of_removal (hd : disk.Sane) (hp : p.Attended disk left) {op : Operation}
    {uri : String} (hop : op = .remove uri ∨ op = .close uri) {x y : Except Refusal Unit}
    (hx : ∀ r, y = .error r → x = .error r)
    (h : Ends (Project.remove ⟨disk, .standard⟩ uri) p y q) :
    q.Attended disk (left ∪ op.Leaves disk.workingPath x q) := by
  rcases hp.remove hd h with hq | ⟨⟨⟨f, hy⟩, hlong⟩, key, hkey, hq⟩
  · exact hq.mono Set.subset_union_left
  · refine hq.mono (Set.insert_subset ?_ Set.subset_union_left)
    exact .inr ⟨⟨⟨f, hx _ hy⟩, hlong⟩, uri, hop, hkey⟩

/-- All that is shown belongs to documents, whatever the operation, or was left behind. -/
theorem attended_of_ends (hd : disk.Sane) (hp : p.Attended disk left) {op : Operation}
    (hnull : op.NullFree) (hbare : op.Bare disk) {x : Except Refusal Unit}
    (h : Ends (op.act ⟨disk, .standard⟩) p x q) :
    q.Attended disk (left ∪ op.Leaves disk.workingPath x q) := by
  cases op with
  | update uri content compileNow =>
      rw [leaves_eq_empty (by simp) (by simp), Set.union_empty]
      exact (attends_update hd hnull content compileNow).discard.related h hp
  | remove uri => exact attended_of_removal hd hp (.inl rfl) (fun _ => id) h
  | close uri =>
      obtain ⟨y, hclose, rfl⟩ := ends_discard_iff.1 h
      rcases close_cases hclose with rfl | ⟨y', hremove, rfl⟩
      · exact hp.mono Set.subset_union_left
      · refine attended_of_removal hd hp (.inr rfl) ?_ hremove
        rintro r rfl
        rfl
  | setRoots uris =>
      rw [leaves_eq_empty (by simp) (by simp), Set.union_empty]
      exact attended_of_setRoots hd hp hnull h
  | load uris references =>
      rw [leaves_eq_empty (by simp) (by simp), Set.union_empty]
      exact attended_of_load hd hp hnull hbare h
  | recompile =>
      rw [leaves_eq_empty (by simp) (by simp), Set.union_empty]
      exact (attends_recompile hd).discard.related h hp

/-! ### Histories -/

/-- The URIs for which something is shown although they are no documents. -/
def orphans (p : Project) : Set String :=
  {uri | uri ∈ p.display.board.shown.keys ∧ uri ∉ p.documents.sources.keys}

/-- At the start nothing is shown. -/
theorem shown_start (connection : Connection) :
    (start connection).display.board.shown.keys = [] :=
  rfl

/-- What belongs to documents was not left behind. -/
theorem Attended.prune (h : p.Attended disk left) : p.Attended disk (left ∩ p.orphans) :=
  ⟨h.tidy, h.bare, fun uri huri => or_iff_not_imp_left.2 fun hno =>
    ⟨(h.owned uri huri).resolve_left hno, huri, hno⟩⟩

/-- Only the working directory of the disk matters to what is shown. -/
theorem Attended.of_workingPath {disk' : Disk} (h : p.Attended disk left)
    (hwd : disk'.workingPath = disk.workingPath) : p.Attended disk' left :=
  ⟨⟨h.tidy.kept, hwd ▸ h.tidy.placed, h.tidy.roots⟩, h.bare, h.owned⟩

/-- The projects that operations without libraries lead to from the start, with one editor and the
compiler of this library, and what is still shown of what an operation left behind. The disk may be
another one for each operation, as long as the working directory stays. -/
inductive Kempt (client : Client) (wd : Path) : Project → Set String → Prop
  | start (topLevel : Nat) (forwarding : Bool) :
      Kempt client wd (start (.start client topLevel forwarding)) ∅
  | step {disk : Disk} {p q : Project} {left : Set String} {op : Operation}
      {x : Except Refusal Unit} (h : Kempt client wd p left) (hd : disk.Sane)
      (hwd : disk.workingPath = wd) (hnull : op.NullFree) (hbare : op.Bare disk)
      (hends : Ends (op.act ⟨disk, .standard⟩) p x q) :
      Kempt client wd q ((left ∪ op.Leaves wd x q) ∩ q.orphans)

namespace Kempt

variable {client : Client} {wd : Path}

/-- An operation that is not refused leaves nothing behind. -/
theorem finish (h : Kempt client wd p ∅) (hd : disk.Sane) (hwd : disk.workingPath = wd)
    (op : Operation) (hnull : op.NullFree) (hbare : op.Bare disk)
    (hx : (op.act ⟨disk, .standard⟩ p).1 = .ok ()) :
    Kempt client wd (op.act ⟨disk, .standard⟩ p).2 ∅ := by
  have hends : Ends (op.act ⟨disk, .standard⟩) p (.ok ()) (op.act ⟨disk, .standard⟩ p).2 :=
    Prod.ext hx rfl
  have hnone : op.Leaves wd (.ok ()) (op.act ⟨disk, .standard⟩ p).2 = ∅ := by
    refine Set.eq_empty_of_forall_notMem fun key hkey => ?_
    obtain ⟨f, hf⟩ := hkey.1.refused
    simp at hf
  have hq := h.step hd hwd hnull hbare hends
  rwa [hnone, Set.empty_union, Set.empty_inter] at hq

/-- Whatever disk there is next, all that is shown belongs to documents, or was left behind. -/
theorem attended (h : Kempt client wd p left) (disk : Disk) (hwd : disk.workingPath = wd) :
    p.Attended disk left := by
  induction h generalizing disk with
  | start topLevel forwarding =>
      exact ⟨tidy_start disk _, rfl, fun uri huri => absurd huri (by simp [shown_start])⟩
  | @step disk' p q left op x h hd hwd' hnull hbare hends ih =>
      have hq := attended_of_ends hd (ih disk' hwd') hnull hbare hends
      rw [hwd'] at hq
      exact hq.prune.of_workingPath (hwd.trans hwd'.symm)

theorem owned (h : Kempt client wd p left) :
    ∀ uri ∈ p.display.board.shown.keys, uri ∈ p.documents.sources.keys ∨ uri ∈ left := by
  cases h with
  | start => exact fun uri huri => absurd huri (by simp [shown_start])
  | @step disk _ _ _ _ _ h hd hwd hnull hbare hends =>
      exact ((h.step hd hwd hnull hbare hends).attended disk hwd).owned

end Kempt

/-! ### A document that is removed -/

end Npl.Project
