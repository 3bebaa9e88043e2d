import Npl.Proofs.Project.Failure

/-!
# Projects that get stuck

A URI can mean a path with a null character in it. Such a path cannot be looked up where all that
stands before the character is on the disk, and then it cannot be told whether it belongs to the
workspace either. A document with such a path is taken over as long as there are no roots. As soon
as there are, the project is stuck: giving it roots is refused half-way, and so is every compilation
behind a change, until the document is removed. A root with such a path does the same to every
document that an earlier root does not hold.

That is the only way to get stuck. If no text has as many characters as the protocol can count,
whatever the compiler of this library tells has a position, and nothing else is refused.

## Main definitions

* `Workspace.Puzzles` — it cannot be told whether a path belongs to the workspace.
* `Project.Brief` — no text of a project has as many characters as the protocol can count.
* `Project.Balks` — compiling a project meets a path that puzzles.

## Main results

* `Workspace.contains_eq_error_iff` — when it is refused to tell.
* `Project.recompile_refused_iff`, `Project.setRoots_refused_iff` — when compiling and giving a
  project other roots are refused.
* `Project.refused_iff_of_serve` — behind any history without long texts.
-/

namespace Npl

/-! ### Paths that puzzle -/

namespace Workspace

variable {w : Workspace} {disk : Disk} {path : Path} {r : Refusal}

/-- Looking for a root that holds the location meets a root with a null character first. -/
def Stumbles (disk : Disk) (l : Location) (roots : List Path) : Prop :=
  ∃ before root after, roots = before ++ root :: after ∧
    (∀ r ∈ before, ∀ top, disk.realPath r = .at top → ¬ top <+: l) ∧
    disk.realPath root = .nullCharacter

/-- Whether the path belongs to the workspace cannot be told: looking it up meets a null character,
or looking a root up does, and none of the roots before holds the path. -/
def Puzzles (w : Workspace) (disk : Disk) (path : Path) : Prop :=
  w.roots ≠ [] ∧ (disk.realPath path = .nullCharacter ∨
    ∃ l, disk.realPath path = .at l ∧ Stumbles disk l w.roots)

/-- What the first root does is what matters, unless it does not hold the location. -/
theorem stumbles_cons_iff {l : Location} {first : Path} {roots : List Path} :
    Stumbles disk l (first :: roots) ↔ disk.realPath first = .nullCharacter ∨
      (∀ top, disk.realPath first = .at top → ¬ top <+: l) ∧ Stumbles disk l roots := by
  constructor
  · rintro ⟨before, root, after, hsplit, hbefore, hroot⟩
    rcases List.cons_eq_append_iff.1 hsplit with ⟨rfl, hfirst⟩ | ⟨others, rfl, hothers⟩
    · obtain ⟨rfl, -⟩ := List.cons.inj hfirst
      exact .inl hroot
    · exact .inr ⟨hbefore first List.mem_cons_self, others, root, after, hothers,
        fun r hr => hbefore r (List.mem_cons_of_mem _ hr), hroot⟩
  · rintro (hnull | ⟨hpass, before, root, after, rfl, hbefore, hroot⟩)
    · exact ⟨[], first, roots, rfl, by simp, hnull⟩
    · refine ⟨first :: before, root, after, rfl, fun r hr => ?_, hroot⟩
      rcases List.mem_cons.1 hr with rfl | hr
      · exact hpass
      · exact hbefore r hr

/-- It is refused to tell whether one of the roots holds a location exactly if a root cannot be
looked up and none of those before holds it. -/
theorem holds_eq_error_iff {l : Location} {roots : List Path} :
    holds disk l roots = .error r ↔ r = .nullCharacter ∧ Stumbles disk l roots := by
  induction roots with
  | nil => simp [holds, Stumbles]
  | cons first roots ih =>
      rw [holds, stumbles_cons_iff]
      split
      · next top htop =>
          split
          · next hholds => simp [htop, hholds]
          · next hpass => simp [htop, hpass, ih]
      · next hnowhere => simp [hnowhere, ih]
      · next hnull => simp [hnull, eq_comm]

/-- It is refused to tell whether a path belongs to the workspace exactly if the path puzzles. -/
theorem contains_eq_error_iff :
    w.contains disk path = .error r ↔ r = .nullCharacter ∧ w.Puzzles disk path := by
  unfold contains Puzzles
  split
  · next hempty => simp [List.isEmpty_iff.1 hempty]
  next hsome =>
  have hsome : w.roots ≠ [] := by simpa using hsome
  split
  · next l hl =>
      rw [holds_eq_error_iff]
      simp [hl, hsome]
  · next hnowhere => simp [hnowhere]
  · next hnull =>
      simp [hnull, hsome, eq_comm]

/-- Whether a path belongs to the workspace can be told unless it puzzles. -/
theorem exists_contains_iff :
    (∃ b, w.contains disk path = .ok b) ↔ ¬ w.Puzzles disk path := by
  constructor
  · rintro ⟨b, hb⟩ hpuzzles
    simp [contains_eq_error_iff.2 ⟨rfl, hpuzzles⟩] at hb
  · intro hclear
    cases hcontains : w.contains disk path with
    | ok b => exact ⟨b, rfl⟩
    | error r => exact absurd (contains_eq_error_iff.1 hcontains).2 hclear

/-- A path without null characters does not puzzle if the roots are without as well. -/
theorem not_puzzles (hd : disk.Sane) (hw : ∀ root ∈ w.roots, root.NullFree)
    (hpath : path.NullFree) : ¬ w.Puzzles disk path :=
  exists_contains_iff.1 (exists_contains hd hw hpath)

end Workspace

namespace Project

open Npl.Project.Action

variable {e : Surroundings} {disk : Disk} {p q : Project}

/-! ### Short texts -/

/-- None of the texts that an operation brings has as many characters as the protocol can count. -/
def Operation.Brief (disk : Disk) : Operation → Prop
  | update _ content _ => content.length < 2 ^ 31
  | load uris references =>
    (∀ sources, (discover disk (rootsOf uris)).1 = .ok sources →
      ∀ s ∈ sources, s.content.length < 2 ^ 31) ∧
      ∀ libraries, (Library.load disk references (rootsOf uris)).1 = .ok libraries →
        ∀ s ∈ libraries, s.content.length < 2 ^ 31
  | remove _ | close _ | setRoots _ | recompile => True

/-- No text of the project has as many characters as the protocol can count. -/
structure Brief (p : Project) : Prop where
  documents : ∀ s ∈ p.documents.all, s.content.length < 2 ^ 31
  libraries : ∀ s ∈ p.libraries, s.content.length < 2 ^ 31

instance isPreorder_brief : IsPreorder Project fun p q => p.Brief → q.Brief where
  refl _ := id
  trans _ _ _ h h' := h' ∘ h

theorem Brief.of_alike (h : p.Brief) (halike : Alike p q) : q.Brief :=
  ⟨halike.all.symm ▸ h.documents, halike.libraries ▸ h.libraries⟩

/-- Putting a short text leaves all texts short. -/
theorem brief_put {d : Documents} (h : ∀ s ∈ d.all, s.content.length < 2 ^ 31) (key : String)
    {s : Source} (hs : s.content.length < 2 ^ 31) :
    ∀ t ∈ (d.put key s).all, t.content.length < 2 ^ 31 := by
  intro t ht
  obtain ⟨entry, hentry, rfl⟩ := List.mem_map.1 ht
  rcases Keyed.mem_of_mem_set hentry with rfl | hold
  · exact hs
  · exact h entry.2 (List.mem_map_of_mem hold)

theorem brief_putAll {d : Documents} (h : ∀ s ∈ d.all, s.content.length < 2 ^ 31) (wd : Path)
    {ss : List Source} (hss : ∀ s ∈ ss, s.content.length < 2 ^ 31) :
    ∀ t ∈ (d.putAll wd ss).1.all, t.content.length < 2 ^ 31 := by
  induction ss generalizing d with
  | nil => exact h
  | cons s ss ih =>
      unfold Documents.putAll
      split
      · exact h
      · exact ih (brief_put h _ (hss s List.mem_cons_self))
          fun t ht => hss t (List.mem_cons_of_mem _ ht)

/-- An operation without long texts leaves all texts short. -/
theorem brief_of_ends {op : Operation} (hop : op.Brief e.disk) (hp : p.Brief)
    {x : Except Refusal Unit} (h : Ends (op.act e) p x q) : q.Brief := by
  have hparts : op.Parts e fun p q => p.Brief → q.Brief := {
    log := fun r => .log (fun p q h hp => hp.of_alike h.alike) r
    forget := fun uri p x q h hp => by
      rcases forget_cases h with ⟨-, -, -, rfl⟩ | ⟨key, -, -, rfl⟩
      · exact hp
      · refine ⟨fun s hs => ?_, hp.libraries⟩
        obtain ⟨entry, hentry, rfl⟩ := List.mem_map.1 hs
        exact hp.documents _ (List.mem_map_of_mem (Keyed.mem_of_mem_erase hentry).1)
    retract := fun uri p x q h hp => by
      rcases retract_cases h with ⟨-, -, -, rfl⟩ | ⟨-, -, -, hq, -⟩
      · exact hp
      · exact hp.of_alike (.of_display hq)
    recompile := fun p x q h hp => hp.of_alike (alike_of_recompile h)
    text := by
      rintro uri content compileNow rfl path hpath hsource p hp
      refine ⟨?_, hp.libraries⟩
      rw [Documents.update_of_isSource hpath hsource]
      exact brief_put hp.documents _ hop
    roots := fun uris _ p hp => ⟨hp.documents, hp.libraries⟩
    found := by
      rintro uris references rfl sources hsources p hp
      exact ⟨brief_putAll (by simp [Documents.all, Keyed.empty, Keyed.values]) _
        (hop.1 sources hsources), hp.libraries⟩
    libraries := by
      rintro uris references rfl libraries hlibraries p hp
      exact ⟨hp.documents, hop.2 libraries hlibraries⟩ }
  exact hparts.respects.related h hp

/-- Behind any operations without long texts all texts are short. -/
theorem brief_serve {ops : List (Surroundings × Operation)} (hops : ∀ o ∈ ops, o.2.Brief o.1.disk)
    (hp : p.Brief) : (serve p ops).Brief := by
  induction ops generalizing p with
  | nil => exact hp
  | cons o ops ih =>
      exact ih (fun o' ho' => hops o' (List.mem_cons_of_mem _ ho'))
        (brief_of_ends (hops o List.mem_cons_self) hp
          (show Ends (o.2.act o.1) p _ (o.2.act o.1 p).2 from rfl))

/-- Whatever the compiler of this library tells about short texts has a diagnostic. -/
theorem Brief.exists_diagnostic (hp : p.Brief) {documents : List Source} {outcome : Outcome}
    (hcompiles : Compiles ⟨disk, .standard⟩ p documents outcome) {m : Message}
    (hm : m ∈ outcome.messages) : ∃ d, m.toDiagnostic = .ok d := by
  obtain ⟨s, hs, habout⟩ := hcompiles.about m hm
  have hshort : s.content.length < 2 ^ 31 := by
    rcases List.mem_append.1 hs with hs | hs
    · exact hp.documents s (mem_all_of_candidates hcompiles.inScope hs)
    · exact hp.libraries s (List.mem_filter.1 hs).1
  obtain ⟨-, -, -, d, hd, -⟩ := habout.exists_diagnostic hshort
  exact ⟨d, hd⟩

/-! ### Compiling -/

/-- Compiling the project meets a path that puzzles: that of a document, or that of a fault. -/
def Balks (e : Surroundings) (p : Project) : Prop :=
  (∃ s ∈ p.documents.all, p.workspace.Puzzles e.disk s.location) ∨
    ∃ documents message, Compiles e p documents (.fault message) ∧
      p.workspace.Puzzles e.disk message.location

/-- It is refused to tell the documents of the workspace exactly if one of them puzzles. -/
theorem candidates_refused_iff {r : Refusal} : p.candidates e = .error r ↔
    r = .nullCharacter ∧ ∃ s ∈ p.documents.all, p.workspace.Puzzles e.disk s.location := by
  constructor
  · intro h
    obtain ⟨s, hs, hr⟩ := exists_of_filterM_eq_error h
    obtain ⟨rfl, hpuzzles⟩ := Workspace.contains_eq_error_iff.1 hr
    exact ⟨rfl, s, hs, hpuzzles⟩
  · rintro ⟨rfl, s, hs, hpuzzles⟩
    cases hcandidates : p.candidates e with
    | ok documents =>
        obtain ⟨b, hb⟩ := (filterM_eq_ok_iff.1 hcandidates).1 s hs
        exact absurd hpuzzles (Workspace.exists_contains_iff.1 ⟨b, hb⟩)
    | error r =>
        obtain ⟨t, -, hr⟩ := exists_of_filterM_eq_error hcandidates
        rw [(Workspace.contains_eq_error_iff.1 hr).1]

/-- A fault that has a diagnostic is refused exactly if its path puzzles. -/
theorem takeFault_refused_iff {message : Message} {d : Diagnostic}
    (hdiagnostic : message.toDiagnostic = .ok d) {x : Except Refusal Unit}
    (h : Ends (takeFault e message) p x q) {r : Refusal} :
    x = .error r ↔ r = .nullCharacter ∧ p.workspace.Puzzles e.disk message.location := by
  unfold takeFault say at h
  rw [ends_get_bind_iff, ends_answer_bind_iff] at h
  rw [← Workspace.contains_eq_error_iff]
  rcases h with ⟨r', hr', rfl, -⟩ | ⟨inside, hinside, h⟩
  · rw [hr', Except.error.injEq, Except.error.injEq]
  have hx : x = .ok () := by
    split at h
    · rw [ends_log_bind_iff, ends_onDisplay_iff] at h
      rcases h with ⟨r', hshow, -⟩ | ⟨display, -, hx, -⟩
      · rcases bind_eq_error_iff.1 hshow with hboard | ⟨board, -, hpure⟩
        · obtain ⟨f, hf, -⟩ := Board.place_of_showFault hboard
          simp [hdiagnostic] at hf
        · exact absurd hpure pure_ne_error
      · exact hx
    · exact (ends_log_iff.1 h).1
  rw [hx, hinside]
  simp

/-- If there is something to compile and the compiler comes to an outcome, that is taken over. -/
theorem taken_of_recompile {documents : List Source} {outcome : Outcome}
    (hopen : p.isSettled = false) (hcompiles : Compiles e p documents outcome)
    {x : Except Refusal (Option Outcome)} (h : Ends (recompile e) p x q) : ∃ mid y, Mute p mid ∧
      Ends (takeOutcome e documents p.documents.dirty outcome) mid y q ∧
      x = y.map fun _ => some outcome := by
  cases taking_of_recompile h with
  | idle _ hidle =>
      rcases hidle with rfl | hnone
      · -- The journal tells that the compiler was run.
        have hran := (recompilation_of_ends h).ran hopen hcompiles.inScope hcompiles.some
        exact absurd hran (refl_of Quiet _).not_ran
      · exact absurd hcompiles (hnone documents outcome)
  | takes hcompiles' hmute _ htake =>
      obtain ⟨rfl, rfl⟩ := hcompiles.unique hcompiles'
      exact ⟨_, _, hmute, htake, rfl⟩

/-- Compiling short texts is refused exactly if something waits for being compiled and compiling it
meets a path that puzzles. -/
theorem recompile_refused_iff (hd : disk.Sane) (hp : p.Orderly ⟨disk, .standard⟩) (hbrief : p.Brief)
    {x : Except Refusal (Option Outcome)} (h : Ends (recompile ⟨disk, .standard⟩) p x q)
    {r : Refusal} : x = .error r ↔
      r = .nullCharacter ∧ p.isSettled = false ∧ p.Balks ⟨disk, .standard⟩ := by
  cases hopen : p.isSettled with
  | true =>
      unfold recompile at h
      rw [ends_get_bind_iff, if_pos hopen] at h
      simp [(ends_pure_iff.1 h).1]
  | false =>
  constructor
  · rintro rfl
    generalize hx : (Except.error r : Except Refusal (Option Outcome)) = x at h
    cases taking_of_recompile h with
    | idle _ _ hrefused =>
        obtain ⟨hr, hdocument⟩ := candidates_refused_iff.1 (hrefused r hx.symm)
        exact ⟨hr, rfl, .inl hdocument⟩
    | @takes documents outcome mid _ y hcompiles hmute _ htake =>
        obtain rfl := map_eq_error_iff.1 hx.symm
        have halike : Alike p mid := .of_display (by rw [hmute.same])
        cases outcome with
        | fault message =>
            obtain ⟨d, hdiagnostic⟩ :=
              hbrief.exists_diagnostic hcompiles (List.mem_singleton_self message)
            obtain ⟨hr, hpuzzles⟩ := (takeFault_refused_iff hdiagnostic htake).1 rfl
            exact ⟨hr, rfl, .inr ⟨documents, message, hcompiles, halike.workspace ▸ hpuzzles⟩⟩
        | finished report =>
            -- The documents have keys and the messages have positions, so the report is shown.
            obtain ⟨r', -, -, hrefused⟩ :=
              (ends_takeReport htake).shown.resolve_left (by simp)
            have hkeys := keysOf_eq (hp.canonical_of_candidates hd hcompiles.inScope)
            obtain ⟨m, hm, f, hf, -⟩ := Board.place_of_showReport hkeys hrefused
            obtain ⟨d, hdiagnostic⟩ := hbrief.exists_diagnostic hcompiles hm
            simp [hdiagnostic] at hf
  · rintro ⟨rfl, -, hdocument | ⟨documents, message, hcompiles, hpuzzles⟩⟩
    · have hrefused := candidates_refused_iff.2 ⟨rfl, hdocument⟩
      unfold recompile at h
      rw [ends_get_bind_iff, if_neg (by simp [hopen]), ends_answer_bind_iff, hrefused] at h
      rcases h with ⟨r, hr, hx, -⟩ | ⟨documents, hdocuments, -⟩
      · rw [hx, Except.error.inj hr]
      · simp at hdocuments
    · obtain ⟨mid, y, hmute, htake, rfl⟩ := taken_of_recompile hopen hcompiles h
      have halike : Alike p mid := .of_display (by rw [hmute.same])
      obtain ⟨d, hdiagnostic⟩ :=
        hbrief.exists_diagnostic hcompiles (List.mem_singleton_self message)
      have hy := (takeFault_refused_iff hdiagnostic htake).2 ⟨rfl, halike.workspace ▸ hpuzzles⟩
      rw [hy]
      rfl

/-! ### Other roots -/

/-- The second project has the roots and the libraries of the first one. Its documents are documents
of the first one, with all those among them that belong to the workspace. -/
structure Narrowed (e : Surroundings) (p q : Project) : Prop where
  workspace : q.workspace = p.workspace
  libraries : q.libraries = p.libraries
  inside : (q.documents.all.filter fun s => isYes (p.workspace.contains e.disk s.location)) =
    p.documents.all.filter fun s => isYes (p.workspace.contains e.disk s.location)
  documents : ∀ s ∈ q.documents.all, s ∈ p.documents.all

namespace Narrowed

theorem of_alike (h : Alike p q) : Narrowed e p q :=
  ⟨h.workspace, h.libraries, by rw [h.all], by simp [h.all]⟩

theorem trans {s : Project} (h : Narrowed e p q) (h' : Narrowed e q s) : Narrowed e p s :=
  ⟨h'.workspace.trans h.workspace, h'.libraries.trans h.libraries,
    (h.workspace ▸ h'.inside).trans h.inside, fun t ht => h.documents t (h'.documents t ht)⟩

theorem brief (h : Narrowed e p q) (hp : p.Brief) : q.Brief :=
  ⟨fun s hs => hp.documents s (h.documents s hs), h.libraries ▸ hp.libraries⟩

/-- If it can be told of all documents whether they belong to the workspace, the same ones are
compiled. -/
theorem candidates (h : Narrowed e p q)
    (hclear : ∀ s ∈ p.documents.all, ¬ p.workspace.Puzzles e.disk s.location) :
    q.candidates e = p.candidates e := by
  have hanswers : ∀ s ∈ p.documents.all, ∃ b, p.workspace.contains e.disk s.location = .ok b :=
    fun s hs => Workspace.exists_contains_iff.2 (hclear s hs)
  have hp : p.candidates e = .ok _ := filterM_eq_ok_iff.2 ⟨hanswers, rfl⟩
  rw [hp, Project.candidates, h.workspace]
  exact filterM_eq_ok_iff.2 ⟨fun s hs => hanswers s (h.documents s hs), h.inside.symm⟩

/-- Then compiling meets a path that puzzles in both or in none. -/
theorem balks_iff (h : Narrowed e p q)
    (hclear : ∀ s ∈ p.documents.all, ¬ p.workspace.Puzzles e.disk s.location) :
    q.Balks e ↔ p.Balks e := by
  have hcompiles : ∀ documents message, Compiles e q documents (.fault message) ↔
      Compiles e p documents (.fault message) := by
    intro documents message
    have htogether : q.together documents = p.together documents :=
      together_congr h.libraries documents
    exact ⟨fun hc => ⟨h.candidates hclear ▸ hc.inScope, hc.some, htogether ▸ hc.result⟩,
      fun hc => ⟨h.candidates hclear ▸ hc.inScope, hc.some, htogether ▸ hc.result⟩⟩
  have hnone : ¬ ∃ s ∈ p.documents.all, p.workspace.Puzzles e.disk s.location :=
    fun ⟨s, hs, hpuzzles⟩ => hclear s hs hpuzzles
  have hnone' : ¬ ∃ s ∈ q.documents.all, p.workspace.Puzzles e.disk s.location :=
    fun ⟨s, hs, hpuzzles⟩ => hclear s (h.documents s hs) hpuzzles
  simp only [Balks, h.workspace, hcompiles, hnone, hnone', false_or]

end Narrowed

/-- Forgetting a document that does not belong to the workspace leaves those that do. -/
theorem narrowed_of_forget (hp : p.Orderly e) {s : Source}
    (hkey : canonicalUri e.disk.workingPath s.uri = .ok s.uri)
    (hout : p.workspace.contains e.disk s.location = .ok false)
    (honly : ∀ t ∈ p.documents.all, t.uri = s.uri → t = s)
    (h : Ends (forget e s.uri) p (.ok ()) q) : Narrowed e p q := by
  rcases forget_cases h with ⟨r, hr, -⟩ | ⟨key, hkey', -, rfl⟩
  · simp [hkey] at hr
  obtain rfl := Except.ok.inj (hkey.symm.trans hkey')
  refine ⟨rfl, rfl, ?_, fun t ht => ?_⟩
  · change (((p.documents.sources.erase s.uri).entries.map Prod.snd).filter _) =
      (p.documents.sources.entries.map Prod.snd).filter _
    rw [Keyed.erase, List.filter_map, List.filter_map, List.filter_filter]
    refine congrArg _ (List.filter_congr fun entry hentry => ?_)
    by_cases heq : entry.1 = s.uri
    · have hsame := honly entry.2 (List.mem_map_of_mem hentry)
        ((hp.kept.named entry hentry).trans heq)
      simp [heq, hsame, hout, isYes]
    · simp [heq]
  · obtain ⟨entry, hentry, rfl⟩ := List.mem_map.1 ht
    exact List.mem_map_of_mem (Keyed.mem_of_mem_erase hentry).1

/-- Dropping such a document before something else leaves those that belong to the workspace, and
something waits then. -/
theorem narrowed_of_drop (hp : p.Orderly e) {s : Source}
    (hkey : canonicalUri e.disk.workingPath s.uri = .ok s.uri)
    (hout : p.workspace.contains e.disk s.location = .ok false)
    (honly : ∀ t ∈ p.documents.all, t.uri = s.uri → t = s) {f : Unit → Action Unit}
    {x : Except Refusal Unit}
    (h : Ends (forget e s.uri >>= fun _ => retract e s.uri >>= f) p x q) :
    ∃ mid, mid.Orderly e ∧ Narrowed e p mid ∧ mid.isSettled = false ∧ Ends (f ()) mid x q := by
  obtain ⟨forgotten, mid, hforget, -, hretract, hsame, hrest⟩ := dropped_of_canonicalUri hkey h
  have horderly : mid.Orderly e := (orderly_of_forget hp hforget).1.of_same (by rw [hsame])
  have hnarrowed : Narrowed e p mid :=
    (narrowed_of_forget hp hkey hout honly hforget).trans (.of_alike (.of_display hsame))
  have hopen : mid.isSettled = false :=
    (isSettled_of_retract hretract).trans (unsettled_of_forget hforget)
  exact ⟨mid, horderly, hnarrowed, hopen, hrest⟩

/-- Dropping the documents that left the workspace is refused if it cannot be told of one of them
whether it did. Else all that left are dropped, and something waits then if any did. -/
theorem dropLeaving_ends (hp : p.Orderly e) {ss : List Source}
    (hss : ∀ s ∈ ss, canonicalUri e.disk.workingPath s.uri = .ok s.uri)
    (honly : ∀ s ∈ ss, ∀ t ∈ p.documents.all, t.uri = s.uri → t = s) {x : Except Refusal Unit}
    (h : Ends (dropLeaving e ss) p x q) :
    (x = .error .nullCharacter ∧ ∃ s ∈ ss, p.workspace.Puzzles e.disk s.location) ∨
    x = .ok () ∧ (∀ s ∈ ss, ¬ p.workspace.Puzzles e.disk s.location) ∧ q.Orderly e ∧
      Narrowed e p q ∧ (q.isSettled = false ↔ p.isSettled = false ∨
        ∃ s ∈ ss, p.workspace.contains e.disk s.location = .ok false) := by
  induction ss generalizing p with
  | nil =>
      obtain ⟨rfl, rfl⟩ := ends_pure_iff.1 h
      exact .inr ⟨rfl, by simp, hp, .of_alike (.refl _), by simp⟩
  | cons s ss ih =>
      have hss' : ∀ t ∈ ss, canonicalUri e.disk.workingPath t.uri = .ok t.uri :=
        fun t ht => hss t (List.mem_cons_of_mem _ ht)
      have hs := hss s List.mem_cons_self
      unfold dropLeaving at h
      rw [ends_get_bind_iff, ends_answer_bind_iff] at h
      rcases h with ⟨r, hr, rfl, rfl⟩ | ⟨inside, hinside, h⟩
      · obtain ⟨rfl, hpuzzles⟩ := Workspace.contains_eq_error_iff.1 hr
        exact .inl ⟨rfl, s, List.mem_cons_self, hpuzzles⟩
      have hclear := Workspace.exists_contains_iff.1 ⟨inside, hinside⟩
      -- Whether or not the first one is dropped, the others are dealt with in `mid`.
      obtain ⟨mid, hmid, hnarrowed, hsettled, hrest⟩ : ∃ mid, mid.Orderly e ∧ Narrowed e p mid ∧
          (mid.isSettled = false ↔ p.isSettled = false ∨ inside = false) ∧
          Ends (dropLeaving e ss) mid x q := by
        cases inside with
        | true => exact ⟨p, hp, .of_alike (.refl _), by simp, by simpa using h⟩
        | false =>
            rw [if_pos (by simp)] at h
            unfold say at h
            rw [ends_log_bind_iff] at h
            have hlogged := Logged.log p
              (.ofPart "service" Level.debug ("Document " ++ s.uri ++ " left the workspace"))
            obtain ⟨mid, hmid, hnarrowed, hopen, hrest⟩ :=
              narrowed_of_drop (hp.of_same hlogged.documents) hs (hlogged.workspace ▸ hinside)
                (hlogged.alike.all.symm ▸ honly s List.mem_cons_self) h
            exact ⟨mid, hmid, (Narrowed.of_alike hlogged.alike).trans hnarrowed, by simp [hopen],
              hrest⟩
      have honly' : ∀ t ∈ ss, ∀ t' ∈ mid.documents.all, t'.uri = t.uri → t' = t :=
        fun t ht t' ht' =>
          honly t (List.mem_cons_of_mem _ ht) t' (hnarrowed.documents t' ht')
      rcases ih hmid hss' honly' hrest with ⟨hx, t, ht, hpuzzles⟩ |
        ⟨hx, hothers, hq, hnarrowed', hsettled'⟩
      · exact .inl ⟨hx, t, List.mem_cons_of_mem _ ht, hnarrowed.workspace ▸ hpuzzles⟩
      rw [hnarrowed.workspace] at hothers hsettled'
      refine .inr ⟨hx, ?_, hq, hnarrowed.trans hnarrowed', ?_⟩
      · intro t ht
        rcases List.mem_cons.1 ht with rfl | ht
        · exact hclear
        · exact hothers t ht
      · rw [hsettled', hsettled]
        simp [hinside, or_assoc]

/-- Giving a project other roots is refused exactly if it cannot be told of one of its documents
whether it belongs to the new workspace, or something waits for being compiled then, and compiling
it meets a path that puzzles. -/
theorem setRoots_refused_iff (hd : disk.Sane) (hp : p.Orderly ⟨disk, .standard⟩) (hbrief : p.Brief)
    {uris : List String} {x : Except Refusal Unit}
    (h : Ends (setRoots ⟨disk, .standard⟩ uris) p x q) {r : Refusal} : x = .error r ↔
      r = .nullCharacter ∧
        ((∃ s ∈ p.documents.all, Workspace.Puzzles ⟨rootsOf uris⟩ disk s.location) ∨
        (p.isSettled = false ∨
          ∃ s ∈ p.documents.all, Workspace.contains ⟨rootsOf uris⟩ disk s.location = .ok false) ∧
        Balks ⟨disk, .standard⟩ { p with workspace := ⟨rootsOf uris⟩ }) := by
  unfold setRoots at h
  rcases ends_bind_iff.1 h with ⟨r', hr, -⟩ | ⟨roots, told, hroots, h⟩
  · exact absurd (ends_rootPaths hr).1 (by simp)
  obtain ⟨hx, htold⟩ := ends_rootPaths hroots
  obtain rfl := Except.ok.inj hx
  rw [ends_modify_bind_iff, ends_get_bind_iff] at h
  -- What the log holds makes no difference to what follows.
  generalize hrooted : ({ told with workspace := ⟨rootsOf uris⟩ } : Project) = rooted at h
  have halike : Alike { p with workspace := ⟨rootsOf uris⟩ } rooted := by
    rw [← hrooted]
    exact ⟨htold.alike.sources, htold.alike.changes, rfl, htold.libraries⟩
  have horderly : rooted.Orderly ⟨disk, .standard⟩ :=
    hp.of_same (by rw [← hrooted, ← htold.documents])
  have hopen : rooted.isSettled = p.isSettled :=
    isSettled_congr (by rw [← hrooted, ← htold.documents]) (by rw [← hrooted, ← htold.last?])
  have hall : rooted.documents.all = p.documents.all := halike.all
  have hworkspace : rooted.workspace = ⟨rootsOf uris⟩ := halike.workspace
  have hcanonical : ∀ s ∈ rooted.documents.all,
      canonicalUri disk.workingPath s.uri = .ok s.uri := fun s hs => by
    obtain ⟨entry, hentry, rfl⟩ := List.mem_map.1 hs
    exact (horderly.canonical entry hentry).eq hd
  have honly : ∀ s ∈ rooted.documents.all, ∀ t ∈ rooted.documents.all, t.uri = s.uri → t = s :=
    fun s hs t ht heq => List.inj_on_of_nodup_map horderly.kept.nodup_uris ht hs heq
  have hdropped : ∀ {y mid}, Ends (dropLeaving ⟨disk, .standard⟩ rooted.documents.all) rooted y mid →
      _ := fun hends => dropLeaving_ends horderly hcanonical honly hends
  simp only [hall, hworkspace, hopen] at hdropped h
  rcases ends_bind_iff.1 h with ⟨r', hdrop, rfl⟩ | ⟨u, mid, hdrop, hdiscard⟩
  · obtain ⟨hr', hdocument⟩ | ⟨hx, -⟩ := hdropped hdrop
    · rw [hr', Except.error.injEq]
      exact ⟨fun hr => ⟨hr.symm, .inl hdocument⟩, fun hr => hr.1.symm⟩
    · simp at hx
  · obtain ⟨hx, -⟩ | ⟨-, hclear, hmid, hnarrowed, hsettled⟩ := hdropped hdrop
    · simp at hx
    obtain ⟨y, hrecompile, rfl⟩ := ends_discard_iff.1 hdiscard
    have hnarrowed : Narrowed ⟨disk, .standard⟩ { p with workspace := ⟨rootsOf uris⟩ } mid :=
      (Narrowed.of_alike halike).trans hnarrowed
    have hbrief' : mid.Brief := hnarrowed.brief ⟨hbrief.documents, hbrief.libraries⟩
    rw [map_eq_error_iff, recompile_refused_iff hd hmid hbrief' hrecompile, hsettled,
      hnarrowed.balks_iff hclear]
    have hnone : ¬ ∃ s ∈ p.documents.all, Workspace.Puzzles ⟨rootsOf uris⟩ disk s.location :=
      fun ⟨s, hs, hpuzzles⟩ => hclear s hs hpuzzles
    simp only [hnone, false_or]

/-! ### Behind any history -/

/-- Without null characters in the paths of documents, libraries and roots nothing puzzles. -/
theorem not_balks (hd : disk.Sane) (hdocuments : ∀ s ∈ p.documents.all, s.location.NullFree)
    (hlibraries : ∀ s ∈ p.libraries, s.location.NullFree)
    (hroots : ∀ root ∈ p.workspace.roots, root.NullFree) : ¬ p.Balks ⟨disk, .standard⟩ := by
  rintro (⟨s, hs, hpuzzles⟩ | ⟨documents, message, hcompiles, hpuzzles⟩)
  · exact Workspace.not_puzzles hd hroots (hdocuments s hs) hpuzzles
  · obtain ⟨s, hs, habout⟩ := hcompiles.about message (List.mem_singleton_self message)
    have hfree : s.location.NullFree := by
      rcases List.mem_append.1 hs with hs | hs
      · exact hdocuments s (mem_all_of_candidates hcompiles.inScope hs)
      · exact hlibraries s (List.mem_filter.1 hs).1
    exact Workspace.not_puzzles hd hroots (habout.1 ▸ hfree) hpuzzles

/-- **Only null characters get a project stuck.** Behind any history of a project in which no text
has as many characters as the protocol can count, with whatever URIs, on a disk that may be another
one each time: it can be told of each document whether it belongs to the workspace unless its path
puzzles. Compiling is refused exactly if something waits and compiling it meets a path that puzzles.
Giving the project other roots is refused exactly if the path of a document puzzles then, or
something waits then and compiling it meets a path that does. The refusal is that of a null
character. -/
theorem refused_iff_of_serve (connection : Connection) {wd : Path}
    {ops : List (Surroundings × Operation)}
    (hops : ∀ o ∈ ops, o.1.disk.Sane ∧ o.1.disk.workingPath = wd ∧ o.2.Brief o.1.disk)
    (hd : disk.Sane) (hwd : disk.workingPath = wd) :
    let p := serve (start connection) ops
    (∀ s ∈ p.documents.all, (∃ b, p.workspace.contains disk s.location = .ok b) ↔
      ¬ p.workspace.Puzzles disk s.location) ∧
    (∀ r, (recompile ⟨disk, .standard⟩ p).1 = .error r ↔
      r = .nullCharacter ∧ p.isSettled = false ∧ p.Balks ⟨disk, .standard⟩) ∧
    ∀ uris r, (setRoots ⟨disk, .standard⟩ uris p).1 = .error r ↔ r = .nullCharacter ∧
      ((∃ s ∈ p.documents.all, Workspace.Puzzles ⟨rootsOf uris⟩ disk s.location) ∨
      (p.isSettled = false ∨
        ∃ s ∈ p.documents.all, Workspace.contains ⟨rootsOf uris⟩ disk s.location = .ok false) ∧
      Balks ⟨disk, .standard⟩ { p with workspace := ⟨rootsOf uris⟩ }) := by
  intro p
  have hp : p.Orderly ⟨disk, .standard⟩ :=
    orderly_serve (fun o ho => ⟨(hops o ho).1, (hops o ho).2.1⟩)
      (fun _ _ => (orderly_start connection).1) hwd
  have hbrief : p.Brief := by
    refine brief_serve (fun o ho => (hops o ho).2.2) ⟨?_, ?_⟩
    · simp [start, Documents.empty, Documents.all, Keyed.empty, Keyed.values]
    · simp [start]
  exact ⟨fun s _ => Workspace.exists_contains_iff,
    fun r => recompile_refused_iff hd hp hbrief (Prod.ext rfl rfl),
    fun uris r => setRoots_refused_iff hd hp hbrief (Prod.ext rfl rfl)⟩

/-- A document with a null character in its path is opened while there are no roots. Giving the
project a root is refused then, and after that a document of the root is edited. -/
def wedging : List (Surroundings × Operation) := [
  (twoDirectories, .update "file:///one/%00.npl" "package c\n" true),
  (twoDirectories, .setRoots ["file:///one"]),
  (twoDirectories, .update "file:///one/a.npl" "package a\n" false)]

/-- The project is stuck: the document cannot be looked up, and neither compiling nor a change of
roots is possible. Without the document with the null character both are. -/
theorem refused_iff_of_serve_wedging :
    (∀ o ∈ wedging, o.1.disk.Sane ∧ o.1.disk.workingPath = twoDirectories.disk.workingPath ∧
      o.2.Brief o.1.disk) ∧
    (let p := serve (start (.start .plain 30 false)) wedging
    (∃ s ∈ p.documents.all, ¬ ∃ b, p.workspace.contains twoDirectories.disk s.location = .ok b) ∧
      (recompile twoDirectories p).1 = .error .nullCharacter ∧
      (setRoots twoDirectories ["file:///two"] p).1 = .error .nullCharacter) ∧
    let p := serve (start (.start .plain 30 false)) (wedging.drop 1)
    p.isSettled = false ∧ (∀ r, (recompile twoDirectories p).1 ≠ .error r) ∧
      ∀ r, (setRoots twoDirectories ["file:///two"] p).1 ≠ .error r := by
  have hd : twoDirectories.disk.Sane := ⟨by decide, by simp [twoDirectories], by decide⟩
  have hops : ∀ o ∈ wedging, o.1.disk.Sane ∧
      o.1.disk.workingPath = twoDirectories.disk.workingPath ∧ o.2.Brief o.1.disk := by
    intro o ho
    simp only [wedging, List.mem_cons, List.not_mem_nil, or_false] at ho
    obtain rfl | rfl | rfl := ho
    · exact ⟨hd, rfl, (by decide : "package c\n".length < 2 ^ 31)⟩
    · exact ⟨hd, rfl, trivial⟩
    · exact ⟨hd, rfl, (by decide : "package a\n".length < 2 ^ 31)⟩
  refine ⟨hops, ?stuck, ?free⟩
  case stuck =>
    intro p
    obtain ⟨htold, hcompiled, hrooted⟩ :=
      refused_iff_of_serve (.start .plain 30 false) hops hd rfl
    have hs : (⟨"file:///one/%00.npl", ⟨.single, ["one", "\x00.npl"]⟩, "package c\n", false⟩ :
        Source) ∈ p.documents.all := by decide +kernel
    have hnull : twoDirectories.disk.realPath ⟨.single, ["one", "\x00.npl"]⟩ = .nullCharacter := by
      decide +kernel
    have hpuzzles : ∀ roots : List Path, roots ≠ [] → Workspace.Puzzles ⟨roots⟩
        twoDirectories.disk ⟨.single, ["one", "\x00.npl"]⟩ := fun roots hsome => ⟨hsome, .inl hnull⟩
    have hsome : p.workspace.roots ≠ [] := by decide +kernel
    exact ⟨⟨_, hs, fun htells => (htold _ hs).1 htells (hpuzzles _ hsome)⟩,
      (hcompiled _).2 ⟨rfl, by decide +kernel, .inl ⟨_, hs, hpuzzles _ hsome⟩⟩,
      (hrooted _ _).2 ⟨rfl, .inl ⟨_, hs, hpuzzles _ (by decide +kernel)⟩⟩⟩
  case free =>
    intro p
    have hlater : ∀ o ∈ wedging.drop 1, o.1.disk.Sane ∧
        o.1.disk.workingPath = twoDirectories.disk.workingPath ∧ o.2.Brief o.1.disk :=
      fun o ho => hops o (List.mem_of_mem_drop ho)
    obtain ⟨-, hcompiled, hrooted⟩ := refused_iff_of_serve (.start .plain 30 false) hlater hd rfl
    have hall : p.documents.all =
        [⟨"file:///one/a.npl", ⟨.single, ["one", "a.npl"]⟩, "package a\n", false⟩] := by
      decide +kernel
    have hdocuments : ∀ s ∈ p.documents.all, s.location.NullFree := by
      rw [hall]
      decide
    have hlibraries : p.libraries = [] := by decide +kernel
    have hone : p.workspace.roots = [⟨.single, ["one"]⟩] := by decide +kernel
    have htwo : rootsOf ["file:///two"] = [⟨.single, ["two"]⟩] := by decide +kernel
    have hstays : ¬ p.Balks twoDirectories := by
      refine not_balks hd hdocuments (by simp [hlibraries]) ?_
      rw [hone]
      decide
    have hmoves : ¬ Balks twoDirectories { p with workspace := ⟨rootsOf ["file:///two"]⟩ } := by
      refine not_balks hd hdocuments (by simp [hlibraries]) ?_
      rw [htwo]
      decide
    refine ⟨by decide +kernel, fun r hr => hstays ((hcompiled r).1 hr).2.2, fun r hr => ?_⟩
    rcases ((hrooted _ r).1 hr).2 with hdocument | ⟨-, hbalks⟩
    · exact hmoves (.inl hdocument)
    · exact hmoves hbalks

end Project

end Npl
