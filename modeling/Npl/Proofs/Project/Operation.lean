import Npl.Proofs.Project.Placed
import Npl.Proofs.Project.Recompile

/-!
# Operations on a project

The operations that an editor asks for, and what the actions that they are made of do to a project.
Forgetting a document stamps it, and after that the project is not settled until it was compiled.
Clearing diagnostics changes the board only.

## Main definitions

* `Project.Operation` — what an editor can ask for.
* `Project.Operation.act` — the action that it is.

## Main results

* `Project.forget_cases`, `Project.retract_cases`, `Project.close_cases`, `Project.drop_cases`,
  `Project.dropLeaving_cases`, `Project.load_cases` — what single actions come to.
-/

namespace Npl.Project

open Npl.Project.Action

variable {e : Surroundings} {p q : Project}

/-! ### Operations -/

/-- What an editor can ask for. -/
inductive Operation
  | update (uri content : String) (compileNow : Bool)
  | remove (uri : String)
  | close (uri : String)
  | setRoots (uris : List String)
  | load (uris references : List String)
  | recompile

/-- The action that an operation is. -/
def Operation.act (e : Surroundings) : Operation → Action Unit
  | update uri content compileNow => discard (Project.update e uri content compileNow)
  | remove uri => Project.remove e uri
  | close uri => discard (Project.close e uri)
  | setRoots uris => Project.setRoots e uris
  | load uris references => Project.load e uris references
  | recompile => discard (Project.recompile e)

/-- A URI that means no path with null characters. -/
def NullFreeUri (uri : String) : Prop :=
  ∀ path, Path.ofUri uri = .ok path → path.NullFree

/-- An operation whose documents and roots have no null characters in their paths. -/
def Operation.NullFree : Operation → Prop
  | update uri _ _ => NullFreeUri uri
  | setRoots uris | load uris _ => ∀ uri ∈ uris, NullFreeUri uri
  | remove _ | close _ | recompile => True

/-! ### Roots -/

/-- The paths of those roots that are files. -/
def rootsOf (uris : List String) : List Path :=
  uris.filterMap fun uri => (Path.ofUri uri).toOption

theorem normal_of_mem_rootsOf {uris : List String} {root : Path} (hroot : root ∈ rootsOf uris) :
    root.Normal := by
  obtain ⟨uri, -, hpath⟩ := List.mem_filterMap.1 hroot
  exact Path.normal_of_ofUri (toOption_eq_some_iff.1 hpath)

theorem clean_of_mem_rootsOf {uris : List String} (h : ∀ uri ∈ uris, NullFreeUri uri) {root : Path}
    (hroot : root ∈ rootsOf uris) : root.Clean := by
  obtain ⟨uri, huri, hpath⟩ := List.mem_filterMap.1 hroot
  have hof := toOption_eq_some_iff.1 hpath
  exact ⟨Path.normal_of_ofUri hof, h uri huri root hof⟩

/-- Telling the paths of roots only writes to the log. -/
theorem ends_rootPaths {uris : List String} {x : Except Refusal (List Path)}
    (h : Ends (rootPaths uris) p x q) : x = .ok (rootsOf uris) ∧ Logged p q := by
  induction uris generalizing p q x with
  | nil =>
      obtain ⟨rfl, rfl⟩ := ends_pure_iff.1 h
      exact ⟨rfl, .refl _⟩
  | cons uri uris ih =>
      unfold rootPaths at h
      split at h
      · next path hpath =>
          rcases ends_bind_iff.1 h with ⟨r, hr, -⟩ | ⟨roots, mid, hroots, hpure⟩
          · exact absurd (ih hr).1 (by simp)
          · obtain ⟨hx, hlogged⟩ := ih hroots
            obtain rfl := Except.ok.inj hx
            obtain ⟨rfl, rfl⟩ := ends_pure_iff.1 hpure
            exact ⟨by simp [rootsOf, hpath, Except.toOption], hlogged⟩
      · next r hr =>
          unfold say at h
          rw [ends_log_bind_iff] at h
          obtain ⟨rfl, hlogged⟩ := ih h
          exact ⟨by simp [rootsOf, hr, Except.toOption], (Logged.log p _).trans hlogged⟩

/-! ### Stamps -/

/-- A document was stamped since, and was not compiled yet. -/
structure Stamped (p q : Project) : Prop where
  unsettled : q.isSettled = false
  later : p.documents.changes < q.documents.changes

/-- Stamping a document leaves a stamp. -/
theorem dirty_touch (d : Documents) (key : String) :
    (d.touch key).dirty.entries.isEmpty = false := by
  have hstamp : (d.touch key).dirty.get? key = some (d.changes + 1) := by
    simp [Documents.touch, Keyed.get?_set]
  exact List.isEmpty_eq_false_iff_exists_mem.2 ⟨_, Keyed.mem_of_get? hstamp⟩

theorem stamped_of_touch {d : Documents} {key : String} (hchanges : d.changes = p.documents.changes)
    (hq : q.documents = d.touch key) : Stamped p q := by
  refine ⟨?_, ?_⟩
  · simp [isSettled, hq, dirty_touch]
  · rw [hq, ← hchanges]
    exact Nat.lt_succ_self _

/-- What keeps the documents and the report keeps a project settled or not. -/
theorem isSettled_congr (hdocuments : q.documents = p.documents) (hlast : q.last? = p.last?) :
    q.isSettled = p.isSettled := by
  rw [isSettled, hdocuments, hlast, isSettled]

/-- Nothing is left to compile if no stamp is left and there is a report. -/
theorem isSettled_of_clean {report : Report} (hdirty : p.documents.dirty = .empty)
    (hlast : p.last? = some report) : p.isSettled = true := by
  simp [isSettled, hdirty, hlast, Keyed.empty]

theorem Stamped.of_same {s : Project} (h : Stamped p q) (hdocuments : s.documents = q.documents)
    (hlast : s.last? = q.last?) : Stamped p s :=
  ⟨(isSettled_congr hdocuments hlast).trans h.unsettled, hdocuments ▸ h.later⟩

theorem Stamped.trans {s : Project} (h : Stamped p q) (h' : Stamped q s) : Stamped p s :=
  ⟨h'.unsettled, Nat.lt_trans h.later h'.later⟩

theorem Logged.tidy (h : Logged p q) (hp : p.Tidy e.disk) : q.Tidy e.disk :=
  hp.of_same h.documents h.workspace

/-! ### Forgetting and clearing -/

/-- Forgetting a document is refused, or removes and stamps its key. -/
theorem forget_cases {uri : String} {x : Except Refusal Unit} (h : Ends (forget e uri) p x q) :
    (∃ r, canonicalUri e.disk.workingPath uri = .error r ∧ x = .error (.uri r) ∧ q = p) ∨
      ∃ key, canonicalUri e.disk.workingPath uri = .ok key ∧ x = .ok () ∧
        q = { p with documents := (p.documents.removeKey key).1 } := by
  unfold forget at h
  rw [ends_get_bind_iff, ends_answer_bind_iff] at h
  rcases h with ⟨refusal, hrefusal, rfl, rfl⟩ | ⟨removed, hremoved, hset⟩
  · left
    obtain ⟨r, hr, rfl⟩ := mapError_eq_error_iff.1 hrefusal
    rcases bind_eq_error_iff.1 hr with hkey | ⟨key, -, hpure⟩
    · exact ⟨r, hkey, rfl, rfl⟩
    · exact absurd hpure pure_ne_error
  · right
    obtain ⟨key, hkey, hpure⟩ := bind_eq_ok_iff.1 (mapError_eq_ok_iff.1 hremoved)
    obtain rfl := pure_eq_ok_iff.1 hpure
    obtain ⟨rfl, rfl⟩ := ends_set_iff.1 hset
    exact ⟨key, hkey, rfl, rfl⟩

/-- Clearing diagnostics is refused, or erases a key from the board. -/
theorem retract_cases {uri : String} {x : Except Refusal Unit} (h : Ends (retract e uri) p x q) :
    (∃ r, canonicalUri e.disk.workingPath uri = .error r ∧ x = .error (.uri r) ∧ q = p) ∨
      ∃ key, canonicalUri e.disk.workingPath uri = .ok key ∧ x = .ok () ∧
        q = { p with display := q.display } ∧
        q.display.board = ⟨p.display.board.shown.erase key⟩ := by
  unfold retract at h
  rw [ends_onDisplay_iff] at h
  rcases h with ⟨r, hr, rfl, rfl⟩ | ⟨d, hd, rfl, rfl⟩
  · left
    rcases bind_eq_error_iff.1 hr with hboard | ⟨shown, -, hpure⟩
    · rcases bind_eq_error_iff.1 hboard with hkey | ⟨key, -, hpure⟩
      · obtain ⟨r', hr', rfl⟩ := mapError_eq_error_iff.1 hkey
        exact ⟨r', hr', rfl, rfl⟩
      · exact absurd hpure pure_ne_error
    · exact absurd hpure pure_ne_error
  · right
    obtain ⟨board, notice, hboard, rfl, -⟩ := shown_of_retract hd
    obtain ⟨key, hkey, hpure⟩ := bind_eq_ok_iff.1 hboard
    obtain ⟨hcleared, -⟩ := Prod.mk.inj (pure_eq_ok_iff.1 hpure)
    exact ⟨key, mapError_eq_ok_iff.1 hkey, rfl, rfl, hcleared.symm⟩

/-- Forgetting a document leaves its stamp, and no document has its URI then. -/
theorem stamped_of_forget (hp : p.Tidy e.disk) {uri : String}
    (h : Ends (forget e uri) p (.ok ()) q) :
    q.Tidy e.disk ∧ Stamped p q ∧ ∃ key, canonicalUri e.disk.workingPath uri = .ok key ∧
      ∀ s ∈ q.documents.all, s.uri ≠ key := by
  rcases forget_cases h with ⟨r, -, hx, -⟩ | ⟨key, hkey, -, rfl⟩
  · simp at hx
  · refine ⟨⟨hp.kept.removeKey key, hp.placed.removeKey key, hp.roots⟩, ?_, key, hkey, ?_⟩
    · exact stamped_of_touch (d := { p.documents with sources := p.documents.sources.erase key }) rfl
        rfl
    · exact fun s hs => hp.kept.uri_ne_of_removeKey hs

/-- Closing a document changes nothing, or removes the document. -/
theorem close_cases {uri : String} {x : Except Refusal Bool} (h : Ends (close e uri) p x q) :
    q = p ∨ ∃ y, Ends (remove e uri) p y q ∧ x = y.map fun _ => true := by
  unfold close at h
  split at h
  · exact .inl (ends_pure_iff.1 h).2
  · rw [ends_answer_bind_iff] at h
    rcases h with ⟨r, -, -, hq⟩ | ⟨found, -, h⟩
    · exact .inl hq
    · split at h
      · exact .inl (ends_pure_iff.1 h).2
      · obtain ⟨y, hremove, rfl⟩ := ends_bind_pure_iff.1 h
        exact .inr ⟨y, hremove, rfl⟩

/-! ### Documents that leave the workspace -/

/-- Dropping a document before something else: it is refused because the URI makes no sense, or the
document is forgotten and its diagnostics are cleared. -/
theorem drop_cases {uri : String} {f : Unit → Action Unit} (hp : p.Tidy e.disk)
    {x : Except Refusal Unit}
    (h : Ends (forget e uri >>= fun _ => retract e uri >>= f) p x q) :
    (∃ r, canonicalUri e.disk.workingPath uri = .error r ∧ q = p) ∨
      ∃ mid, mid.Tidy e.disk ∧ Stamped p mid ∧ Ends (f ()) mid x q := by
  rcases ends_bind_iff.1 h with ⟨r, hr, -⟩ | ⟨u, forgotten, hforget, hrest⟩
  · rcases forget_cases hr with ⟨r', hr', -, hq⟩ | ⟨key, -, hx, -⟩
    · exact .inl ⟨r', hr', hq⟩
    · simp at hx
  right
  obtain ⟨htidy, hstamped, key, hkey, -⟩ := stamped_of_forget hp hforget
  rcases ends_bind_iff.1 hrest with ⟨r, hr, -⟩ | ⟨u', mid, hretract, hf⟩
  · rcases retract_cases hr with ⟨r', hr', -, -⟩ | ⟨key', -, hx, -⟩
    · simp [hkey] at hr'
    · simp at hx
  · rcases retract_cases hretract with ⟨r, -, hx, -⟩ | ⟨key', -, -, hmid, -⟩
    · simp at hx
    · have hdocuments : mid.documents = forgotten.documents := by rw [hmid]
      have hworkspace : mid.workspace = forgotten.workspace := by rw [hmid]
      have hlast : mid.last? = forgotten.last? := by rw [hmid]
      exact ⟨mid, htidy.of_same hdocuments hworkspace, hstamped.of_same hdocuments hlast, hf⟩

/-- Dropping a document whose URI makes sense is not refused: the document is forgotten, and its
diagnostics are cleared. -/
theorem dropped_of_canonicalUri {uri key : String} {f : Unit → Action Unit}
    (hkey : canonicalUri e.disk.workingPath uri = .ok key) {x : Except Refusal Unit}
    (h : Ends (forget e uri >>= fun _ => retract e uri >>= f) p x q) :
    ∃ forgotten mid, Ends (forget e uri) p (.ok ()) forgotten ∧
      forgotten.documents = (p.documents.removeKey key).1 ∧
      Ends (retract e uri) forgotten (.ok ()) mid ∧
      mid = { forgotten with display := mid.display } ∧ Ends (f ()) mid x q := by
  rcases ends_bind_iff.1 h with ⟨r, hr, -⟩ | ⟨u, forgotten, hforget, hrest⟩
  · rcases forget_cases hr with ⟨r', hr', -⟩ | ⟨-, -, hx, -⟩
    · simp [hkey] at hr'
    · simp at hx
  rcases ends_bind_iff.1 hrest with ⟨r, hr, -⟩ | ⟨u', mid, hretract, hf⟩
  · rcases retract_cases hr with ⟨r', hr', -⟩ | ⟨-, -, hx, -⟩
    · simp [hkey] at hr'
    · simp at hx
  rcases forget_cases hforget with ⟨r, -, hx, -⟩ | ⟨key', hkey', -, hforgotten⟩
  · simp at hx
  rcases retract_cases hretract with ⟨r, -, hx, -⟩ | ⟨-, -, -, hmid, -⟩
  · simp at hx
  obtain rfl := Except.ok.inj (hkey.symm.trans hkey')
  exact ⟨forgotten, mid, hforget, by rw [hforgotten], hretract, hmid, hf⟩

/-- Dropping the documents that left the workspace drops one of them, or leaves the project as it is
because none of them left. -/
theorem dropLeaving_cases (hd : e.disk.Sane) (hp : p.Tidy e.disk) {ss : List Source}
    (hss : ∀ s ∈ ss, s.Placed e.disk.workingPath) {x : Except Refusal Unit}
    (h : Ends (dropLeaving e ss) p x q) :
    q.Tidy e.disk ∧
      ((Stamped p q ∧ ∃ s ∈ ss, p.workspace.contains e.disk s.location = .ok false) ∨
        Logged p q ∧ x = .ok () ∧
          ∀ s ∈ ss, p.workspace.contains e.disk s.location = .ok true) := by
  induction ss generalizing p x with
  | nil =>
      obtain ⟨rfl, rfl⟩ := ends_pure_iff.1 h
      exact ⟨hp, .inr ⟨.refl _, rfl, by simp⟩⟩
  | cons s ss ih =>
      have hs := hss s List.mem_cons_self
      have hss' : ∀ t ∈ ss, t.Placed e.disk.workingPath :=
        fun t ht => hss t (List.mem_cons_of_mem _ ht)
      unfold dropLeaving at h
      rw [ends_get_bind_iff, ends_answer_bind_iff] at h
      obtain ⟨b, hb⟩ := Workspace.exists_contains hd hp.roots hs.nullFree
      rcases h with ⟨r, hr, -, -⟩ | ⟨b', hb', h⟩
      · simp [hb] at hr
      split at h
      · next hout =>
          have hleft : p.workspace.contains e.disk s.location = .ok false := by
            rw [hb']
            simpa using hout
          unfold say at h
          rw [ends_log_bind_iff] at h
          have hlogged := Logged.log p
            (.ofPart "service" Level.debug ("Document " ++ s.uri ++ " left the workspace"))
          rcases drop_cases (hlogged.tidy hp) h with ⟨r, hr, -⟩ | ⟨mid, hmid, hdropped, hrest⟩
          · simp [hs.canonical hd] at hr
          -- Whatever happens to the other documents, this one is stamped from here on.
          obtain ⟨hq, hcases⟩ := ih hmid hss' hrest
          have hstamped : Stamped p mid := ⟨hdropped.unsettled, hdropped.later⟩
          refine ⟨hq, .inl ⟨?_, s, List.mem_cons_self, hleft⟩⟩
          rcases hcases with ⟨hlater, -⟩ | ⟨hquiet, -, -⟩
          · exact hstamped.trans hlater
          · exact hstamped.of_same hquiet.documents hquiet.last?
      · next hin =>
          obtain ⟨htidy, hcases⟩ := ih hp hss' h
          refine ⟨htidy, ?_⟩
          rcases hcases with ⟨hstamped, t, ht, hleft⟩ | ⟨hlogged, hx, hall⟩
          · exact .inl ⟨hstamped, t, List.mem_cons_of_mem _ ht, hleft⟩
          · refine .inr ⟨hlogged, hx, ?_⟩
            intro t ht
            rcases List.mem_cons.1 ht with rfl | ht
            · rw [hb']
              simpa using hin
            · exact hall t ht

/-! ### Loading -/

/-- What loading does behind the moment that all documents are replaced. -/
def finishLoad (e : Surroundings) (libraries : List Source)
    (vanished : Except UriError (List String)) : Action Unit := do
  let vanished ← answer (vanished.mapError Refusal.uri)
  modify fun p => { p with libraries }
  (vanished.mergeSort fun a b => !(b < a)).forM (retract e)
  discard (recompile e)

/-- What was gathered are the sources found below the roots and those of the libraries. -/
theorem gather_eq_ok_iff {disk : Disk} {roots : List Path} {references : List String}
    {sources libraries : List Source} :
    (gather disk roots references).1 = .ok (sources, libraries) ↔
      (discover disk roots).1 = .ok sources ∧ (Library.load disk references roots).1 = .ok libraries := by
  rw [gather]
  split
  · next e records hfound => simp [hfound]
  · next found records hfound =>
      rw [hfound]
      simp only [map_eq_ok_iff, Prod.mk.injEq, Except.ok.injEq]
      constructor
      · rintro ⟨loaded, hloaded, rfl, rfl⟩
        exact ⟨rfl, hloaded⟩
      · rintro ⟨rfl, hloaded⟩
        exact ⟨libraries, hloaded, rfl, rfl⟩

/-- Loading is refused because what it needs cannot be gathered, or all documents are replaced by what
is found below the roots, and loading goes on from there. -/
theorem load_cases {uris references : List String} {x : Except Refusal Unit}
    (h : Ends (load e uris references) p x q) :
    (∃ r, (gather e.disk (rootsOf uris) references).1 = .error r ∧ x = .error r ∧ Logged p q) ∨
      ∃ sources libraries mid,
        (gather e.disk (rootsOf uris) references).1 = .ok (sources, libraries) ∧ Logged p mid ∧
        Ends (finishLoad e libraries (p.documents.replaceAll e.disk.workingPath sources).2)
          { mid with
            workspace := ⟨rootsOf uris⟩
            documents := (p.documents.replaceAll e.disk.workingPath sources).1 } x q := by
  unfold load at h
  rcases ends_bind_iff.1 h with ⟨r, hr, -⟩ | ⟨roots, told, hroots, h⟩
  · exact absurd (ends_rootPaths hr).1 (by simp)
  obtain ⟨hx, htold⟩ := ends_rootPaths hroots
  obtain rfl := Except.ok.inj hx
  simp only at h
  rcases ends_bind_iff.1 h with ⟨r, hr, -⟩ | ⟨u, mid, hrecords, h⟩
  · exact absurd (logged_of_ends_forM hr).1 (by simp)
  have hlogged := htold.trans (logged_of_ends_forM hrecords).2
  rw [ends_answer_bind_iff] at h
  rcases h with ⟨r, hr, hx, rfl⟩ | ⟨⟨sources, libraries⟩, hgathered, h⟩
  · exact .inl ⟨r, hr, hx, hlogged⟩
  · rw [ends_get_bind_iff, ends_set_bind_iff, hlogged.documents] at h
    exact .inr ⟨sources, libraries, mid, hgathered, hlogged, h⟩

end Npl.Project
