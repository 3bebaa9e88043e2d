import Npl.Proofs.Project.Effect
import Npl.Proofs.Project.Intake
import Npl.Proofs.Project.Watched

/-!
# What the compiler is given

A document comes to the compiler only if it lies below one of the roots, where the links on the disk
lead at that time, and the text of a document that lies elsewhere is not taken over. The roots are
those that were named last.

There are two exceptions. Of the URIs that name roots, those that are no file paths are passed over,
and if none is left, all documents count: the compiler is given every document that there is. And if
a library reference is refused, the roots stay what they were, although others were named.

## Main definitions

* `Project.serve`, `Project.named` — a history of operations, and the URIs in force behind it.
* `Project.LiesBelow` — a path leads below one of the roots that URIs name.

## Main results

* `Project.liesBelow_of_contains` — what belongs to a workspace with roots lies below one of them.
* `Project.inside_of_serve` — what the compiler is given lies below the roots in force.
-/

namespace Npl.Project

open Npl.Project.Action (Ends Respects)

variable {e : Surroundings} {p q : Project} {ms : List Moment} {roots : List Path}

/-! ### Below the roots -/

/-- The path leads below one of the roots that the URIs name. -/
def LiesBelow (disk : Disk) (uris : List String) (path : Path) : Prop :=
  ∃ uri ∈ uris, ∃ root top l, Path.ofUri uri = .ok root ∧ disk.realPath root = .at top ∧
    disk.realPath path = .at l ∧ top <+: l

theorem exists_of_holds {disk : Disk} {l : Location}
    (h : Workspace.holds disk l roots = .ok true) :
    ∃ root ∈ roots, ∃ top, disk.realPath root = .at top ∧ top <+: l := by
  induction roots with
  | nil => simp [Workspace.holds] at h
  | cons root roots ih =>
      have hrest : Workspace.holds disk l roots = .ok true →
          ∃ r ∈ root :: roots, ∃ top, disk.realPath r = .at top ∧ top <+: l := by
        intro hrest
        obtain ⟨r, hr, hlies⟩ := ih hrest
        exact ⟨r, List.mem_cons_of_mem _ hr, hlies⟩
      rw [Workspace.holds] at h
      split at h
      · next top htop =>
          split at h
          · next hprefix => exact ⟨root, List.mem_cons_self, top, htop, hprefix⟩
          · exact hrest h
      · exact hrest h
      · simp at h

/-- What belongs to a workspace with roots leads below one of them. -/
theorem liesBelow_of_contains {disk : Disk} {uris : List String} {path : Path}
    (h : Workspace.contains ⟨rootsOf uris⟩ disk path = .ok true) :
    rootsOf uris = [] ∨ LiesBelow disk uris path := by
  unfold Workspace.contains at h
  split at h
  · next hempty => exact .inl (List.isEmpty_iff.1 hempty)
  right
  split at h
  · next l hl =>
      obtain ⟨root, hroot, top, htop, hprefix⟩ := exists_of_holds h
      obtain ⟨uri, huri, hof⟩ := List.mem_filterMap.1 hroot
      exact ⟨uri, huri, root, top, l, toOption_eq_some_iff.1 hof, htop, hl, hprefix⟩
  · simp at h
  · simp at h

/-! ### Actions that ask about the workspace only -/

namespace Watched

variable {α β : Type} {w : Watched α} {f : α → Watched β}

/-- As long as the roots are the given ones they stay so, and all documents that come to the
compiler belong to the workspace. -/
def AsksInside (e : Surroundings) (roots : List Path) (w : Watched α) : Prop :=
  ∀ p ms x q, p.workspace = ⟨roots⟩ → w.Comes p ms x q → q.workspace = ⟨roots⟩ ∧
    ∀ documents libraries, .asked documents libraries ∈ ms → ∀ s ∈ documents,
      Workspace.contains ⟨roots⟩ e.disk s.location = .ok true

namespace AsksInside

theorem bind (hw : AsksInside e roots w) (hf : ∀ x, AsksInside e roots (f x)) :
    AsksInside e roots (w >>= f) := by
  intro p ms x q hp hcomes
  rcases comes_bind_iff.1 hcomes with ⟨r, hr, -⟩ | ⟨y, mid, ms', ms'', hy, hrest, rfl⟩
  · exact hw _ _ _ _ hp hr
  obtain ⟨hmid, hfirst⟩ := hw _ _ _ _ hp hy
  obtain ⟨hq, hsecond⟩ := hf y _ _ _ _ hmid hrest
  refine ⟨hq, fun documents libraries hasked => ?_⟩
  rcases List.mem_append.1 hasked with hasked | hasked
  · exact hfirst documents libraries hasked
  · exact hsecond documents libraries hasked

theorem ignoring (h : AsksInside e roots w) : AsksInside e roots (Watched.ignoring w) := by
  intro p ms x q hp hcomes
  obtain ⟨y, hy⟩ := exists_of_comes_ignoring hcomes
  exact h p ms y q hp hy

/-- Silent actions that leave the workspace alone. -/
theorem silent {a : Action α} (h : ∀ p x q, Ends a p x q → q.workspace = p.workspace) :
    AsksInside e roots (Watched.silent a) := by
  rintro p ms x q hp ⟨hends, rfl⟩
  exact ⟨(h p x q hends).trans hp, fun _ _ hasked => absurd hasked List.not_mem_nil⟩

/-- Changes of the documents. -/
theorem changing {a : Action α} (h : ∀ p x q, Ends a p x q → q.workspace = p.workspace) :
    AsksInside e roots (Watched.changing a) := by
  rintro p ms x q hp ⟨hends, rfl⟩
  refine ⟨(h p x q hends).trans hp, fun documents libraries hasked => ?_⟩
  unfold Watched.changing at hasked
  simp only at hasked
  split at hasked
  · simp at hasked
  · simp at hasked

theorem pure (a : α) : AsksInside e roots (Pure.pure a : Watched α) := by
  refine .silent fun p x q h => ?_
  obtain ⟨-, rfl⟩ := Action.ends_pure_iff.1 h
  rfl

theorem answer (r : Except Refusal α) : AsksInside e roots (Watched.silent (Project.answer r)) := by
  refine .silent fun p x q h => ?_
  obtain ⟨-, rfl⟩ := Action.ends_answer_iff.1 h
  rfl

theorem get : AsksInside e roots (Watched.silent MonadState.get) := by
  refine .silent fun p x q h => ?_
  obtain ⟨-, rfl⟩ := (Action.ends_iff_of_eq rfl).1 h
  rfl

theorem log (r : LogRecord) : AsksInside e roots (Watched.silent (Project.log r)) := by
  refine .silent fun p x q h => ?_
  obtain ⟨-, rfl⟩ := Action.ends_log_iff.1 h
  rfl

theorem retract (uri : String) : AsksInside e roots (Watched.silent (Project.retract e uri)) := by
  refine .silent fun p x q h => ?_
  rcases retract_cases h with ⟨-, -, -, rfl⟩ | ⟨-, -, -, hq, -⟩
  · rfl
  · rw [hq]

theorem forget (uri : String) : AsksInside e roots (Watched.forget e uri) := by
  refine .changing fun p x q h => ?_
  rcases forget_cases h with ⟨-, -, -, rfl⟩ | ⟨-, -, -, rfl⟩
  · rfl
  · rfl

end AsksInside

/-! ### Operations -/

theorem told_silent_bind_pure (a : Action α) (b : β) (p : Project) :
    (silent a >>= fun _ => (pure b : Watched β)).told p = [] := by
  change [] ++ _ = []
  split
  · rfl
  · rfl

/-- What recompiling gives to the compiler are the documents of the workspace. -/
theorem candidates_of_asked {x : Except Refusal (Option Outcome)}
    (h : (Watched.recompile e).Comes p ms x q) {documents libraries : List Source}
    (hasked : .asked documents libraries ∈ ms) : p.candidates e = .ok documents := by
  unfold Watched.recompile at h
  have hcomes := comes_get_bind_iff.1 h
  split at hcomes
  · have hnone : [] = ms := hcomes.told
    simp [← hnone] at hasked
  obtain ⟨before, hattempt, rfl⟩ := comes_attempting_iff.1 hcomes
  have hasked : .asked documents libraries ∈ before := by simpa using hasked
  rcases comes_silent_bind_iff.1 hattempt with ⟨r, -, -, rfl⟩ | ⟨found, mid, hfound, hbehind⟩
  · simp at hasked
  obtain ⟨hcandidates, rfl⟩ := Action.ends_answer_iff.1 hfound
  split at hbehind
  · rw [← hbehind.told, told_silent_bind_pure] at hasked
    simp at hasked
  rcases comes_silent_bind_iff.1 hbehind with ⟨r, -, -, rfl⟩ | ⟨u, said, -, hrun⟩
  · simp at hasked
  rcases comes_bind_iff.1 hrun with ⟨r, hr, -⟩ | ⟨result, ran, ms', ms'', hresult, hrest, rfl⟩
  · obtain ⟨rfl, -⟩ : found = documents ∧ _ := by
      simpa [← hr.told, asking, eq_comm] using hasked
    exact hcandidates.symm
  · have hnone : ms'' = [] := by
      rw [← hrest.told]
      rcases result with cause | (report | message)
      · exact told_silent_bind_pure _ _ _
      · exact told_silent_bind_pure _ _ _
      · exact told_silent_bind_pure _ _ _
    obtain ⟨rfl, -⟩ : found = documents ∧ _ := by
      simpa [← hresult.told, hnone, asking, eq_comm] using hasked
    exact hcandidates.symm

namespace AsksInside

theorem recompile : AsksInside e roots (Watched.recompile e) := by
  intro p ms x q hp hcomes
  have halike := alike_of_recompile (act_recompile e ▸ hcomes.ends)
  refine ⟨halike.workspace.trans hp, fun documents libraries hasked s hs => ?_⟩
  have hcandidates := candidates_of_asked hcomes hasked
  rw [candidates, hp] at hcandidates
  obtain ⟨hsome, rfl⟩ := filterM_eq_ok_iff.1 hcandidates
  exact isYes_eq_true_iff.1 (List.mem_filter.1 hs).2

theorem dropOutside (uri : String) : AsksInside e roots (Watched.dropOutside e uri) := by
  refine .bind .get fun p => .bind (.answer _) fun known => ?_
  split
  · exact .bind (.log _) fun _ => .bind (.forget uri) fun _ => .bind (.retract uri) fun _ =>
      recompile.ignoring
  · exact .pure _

theorem update (uri content : String) (compileNow : Bool) :
    AsksInside e roots (Watched.update e uri content compileNow) := by
  unfold Watched.update
  split
  · exact .bind (.log _) fun _ => .pure _
  split
  · exact .pure _
  refine .bind .get fun p => .bind (.answer _) fun inside => ?_
  split
  · refine .bind (.changing fun p x q h => ?_) fun _ => ?_
    · obtain ⟨-, rfl⟩ := (Action.ends_iff_of_eq rfl).1 h
      rfl
    · split
      · exact .bind recompile.ignoring fun _ => .pure _
      · exact .pure _
  · exact .bind (.dropOutside uri) fun _ => .pure _

theorem remove (uri : String) : AsksInside e roots (Watched.remove e uri) :=
  .bind (.forget uri) fun _ => .bind recompile.ignoring fun _ => .retract uri

theorem close (uri : String) : AsksInside e roots (Watched.close e uri) := by
  unfold Watched.close
  split
  · exact .pure _
  refine .bind (.answer _) fun there => ?_
  split
  · exact .pure _
  · exact .bind (.remove uri) fun _ => .pure _

theorem dropLeaving (ss : List Source) : AsksInside e roots (Watched.dropLeaving e ss) := by
  induction ss with
  | nil => exact .pure _
  | cons s ss ih =>
      refine .bind .get fun p => .bind (.answer _) fun inside => ?_
      split
      · exact .bind (.log _) fun _ => .bind (.forget _) fun _ => .bind (.retract _) fun _ => ih
      · exact ih

end AsksInside

end Watched

open Watched

/-! ### Which roots are in force -/

/-- The URIs that are in force behind an operation, if the given ones were before. -/
def Operation.inForce (e : Surroundings) (uris : List String) : Operation → List String
  | setRoots named => named
  | load named references =>
    if (gather e.disk (rootsOf named) references).1.isOk then named else uris
  | update .. | remove _ | close _ | recompile => uris

/-- The project has the roots that the URIs name, and the documents that came to the compiler belong
to the workspace with these roots. -/
structure Inside (e : Surroundings) (uris : List String) (ms : List Moment) (q : Project) :
    Prop where
  workspace : q.workspace = ⟨rootsOf uris⟩
  asked : ∀ documents libraries, .asked documents libraries ∈ ms → ∀ s ∈ documents,
    Workspace.contains ⟨rootsOf uris⟩ e.disk s.location = .ok true

/-- With other roots, only documents that belong to the new ones come to the compiler. -/
theorem inside_of_setRoots {uris : List String} {x : Except Refusal Unit}
    (h : (Watched.setRoots e uris).Comes p ms x q) : Inside e uris ms q := by
  rcases comes_silent_bind_iff.1 h with ⟨r, hr, -⟩ | ⟨roots, told, htold, hbehind⟩
  · exact absurd (ends_rootPaths hr).1 (by simp)
  obtain rfl := Except.ok.inj (ends_rootPaths htold).1
  rcases comes_silent_bind_iff.1 hbehind with ⟨r, hr, -⟩ | ⟨u, rescoped, hrescoped, hrest⟩
  · exact absurd ((Action.ends_iff_of_eq rfl).1 hr).1 (by simp)
  obtain ⟨-, rfl⟩ := (Action.ends_iff_of_eq rfl).1 hrescoped
  have hasks : AsksInside e (rootsOf uris) (do
      let p ← silent get
      Watched.dropLeaving e p.documents.all
      ignoring (Watched.recompile e)) :=
    .bind .get fun p => .bind (.dropLeaving _) fun _ => AsksInside.recompile.ignoring
  obtain ⟨hworkspace, hasked⟩ := hasks _ _ _ _ rfl hrest
  exact ⟨hworkspace, hasked⟩

/-- The same if the workspace is loaded. If what that needs cannot be gathered, the roots stay as they
were, and nothing is compiled. -/
theorem inside_of_load {uris named references : List String} (hp : p.workspace = ⟨rootsOf uris⟩)
    {x : Except Refusal Unit} (h : (Watched.load e named references).Comes p ms x q) :
    Inside e ((Operation.load named references).inForce e uris) ms q := by
  simp only [Operation.inForce]
  rcases Watched.load_cases h with
    ⟨r, hrefused, rfl, hlogged⟩ | ⟨sources, libraries, mid, rest, hgathered, -, hrest, rfl⟩
  · rw [hrefused, if_neg (by simp [Except.isOk, Except.toBool])]
    exact ⟨hlogged.workspace.trans hp, fun _ _ hasked => absurd hasked List.not_mem_nil⟩
  rw [hgathered, if_pos (by simp [Except.isOk, Except.toBool])]
  have hasks : ∀ vanished, AsksInside e (rootsOf named) (Watched.finishLoad e libraries vanished) :=
    fun vanished => .bind (.answer _) fun vanished => .bind (.silent fun p x q h => by
      obtain ⟨-, rfl⟩ := (Action.ends_iff_of_eq rfl).1 h
      rfl) fun _ => .bind (.silent fun p x q h => by rw [ends_retracts h]) fun _ =>
        AsksInside.recompile.ignoring
  obtain ⟨hworkspace, hasked⟩ := hasks _ _ _ _ _ rfl hrest
  exact ⟨hworkspace,
    fun documents libraries hmem => hasked documents libraries (by simpa using hmem)⟩

/-- Whatever the operation, only documents that belong to the workspace come to the compiler. -/
theorem inside_of_operation {uris : List String} (hp : p.workspace = ⟨rootsOf uris⟩)
    {op : Operation} {x : Except Refusal Unit} (h : (op.watched e).Comes p ms x q) :
    Inside e (op.inForce e uris) ms q := by
  have hinside : ∀ {w : Watched Unit}, AsksInside e (rootsOf uris) w → w.Comes p ms x q →
      Inside e uris ms q := by
    intro w hw hcomes
    obtain ⟨hworkspace, hasked⟩ := hw _ _ _ _ hp hcomes
    exact ⟨hworkspace, hasked⟩
  cases op with
  | update uri content compileNow =>
      exact hinside (AsksInside.update uri content compileNow).ignoring h
  | remove uri => exact hinside (.remove uri) h
  | close uri => exact hinside (AsksInside.close uri).ignoring h
  | setRoots named => exact inside_of_setRoots h
  | load named references => exact inside_of_load hp h
  | recompile => exact hinside AsksInside.recompile.ignoring h

/-! ### Texts from elsewhere -/

/-- A text whose document does not belong to the workspace is not taken over, and nothing comes to
the documents. -/
theorem sheds_of_update_outside {uri content : String} {compileNow : Bool} {path : Path}
    (hpath : Path.ofUri uri = .ok path) (hout : p.workspace.contains e.disk path ≠ .ok true)
    {x : Except Refusal Bool} (h : Ends (update e uri content compileNow) p x q) :
    x ≠ .ok true ∧ Sheds p q := by
  refine ⟨?_, ?_⟩
  · unfold update at h
    simp only [hpath] at h
    split at h
    · obtain ⟨rfl, -⟩ := Action.ends_pure_iff.1 h
      simp
    rw [Action.ends_get_bind_iff, Action.ends_answer_bind_iff] at h
    rcases h with ⟨r, -, rfl, -⟩ | ⟨inside, hinside, h⟩
    · simp
    split at h
    · next htrue => exact absurd (htrue ▸ hinside) hout
    · obtain ⟨y, -, rfl⟩ := Action.ends_bind_pure_iff.1 h
      cases y <;> simp [Except.map]
  · have hno : isYes (p.workspace.contains e.disk path) = false :=
      Bool.eq_false_iff.2 fun hyes => hout (isYes_eq_true_iff.1 hyes)
    have hsheds := sheds_of_update h
    simp only [textIntake, hpath, hno, Bool.and_false] at hsheds
    exact hsheds

/-- Without any roots the text of every source file is taken over. -/
theorem update_of_rootless {uri : String} (content : String) {path : Path}
    (hroots : p.workspace = ⟨[]⟩) (hpath : Path.ofUri uri = .ok path)
    (hsource : path.isSource = true) : (update e uri content false p).1 = .ok true := by
  unfold update
  simp only [hpath, hsource, Bool.not_true, Bool.false_eq_true, if_false]
  rw [get_bind_apply]
  simp only [hroots, Workspace.contains, List.isEmpty_nil, if_true]
  rfl

/-! ### Histories -/

/-- A project behind operations, each in its own surroundings, refused or not. -/
def serve (p : Project) (ops : List (Surroundings × Operation)) : Project :=
  ops.foldl (fun p o => (o.2.act o.1 p).2) p

/-- The URIs that are in force behind operations, if the given ones were before. -/
def named (uris : List String) (ops : List (Surroundings × Operation)) : List String :=
  ops.foldl (fun uris o => o.2.inForce o.1 uris) uris

/-- The roots are those that the URIs in force name. -/
theorem workspace_serve {uris : List String} (hp : p.workspace = ⟨rootsOf uris⟩)
    (ops : List (Surroundings × Operation)) :
    (serve p ops).workspace = ⟨rootsOf (named uris ops)⟩ := by
  induction ops generalizing p uris with
  | nil => exact hp
  | cons o ops ih =>
      obtain ⟨x, hcomes⟩ := (o.2.watched o.1).exists_comes p
      rw [Operation.act_watched] at hcomes
      exact ih (inside_of_operation hp hcomes).workspace

/-- **Only what lies below the roots is compiled.** Behind any history of a project, on a disk and
with a compiler that may be other ones each time, whatever operation comes next: unless none of the
URIs in force is a file path, all documents that come to the compiler lead below one of the roots
that these URIs name, and the text of a document that does not is not taken over, and nothing comes
to the documents. If none of the URIs is a file path, the text of any source file is taken over. -/
theorem inside_of_serve (connection : Connection) (ops : List (Surroundings × Operation))
    (e : Surroundings) (op : Operation) :
    let p := serve (start connection) ops
    let uris := op.inForce e (named [] ops)
    (∀ documents libraries, .asked documents libraries ∈ (op.watched e).told p →
      ∀ s ∈ documents, rootsOf uris = [] ∨ LiesBelow e.disk uris s.location) ∧
    ∀ uri content compileNow path, op = .update uri content compileNow →
      Path.ofUri uri = .ok path →
        (rootsOf uris ≠ [] → ¬ LiesBelow e.disk uris path →
          (update e uri content compileNow p).1 ≠ .ok true ∧
            Sheds p (update e uri content compileNow p).2) ∧
        (rootsOf uris = [] → path.isSource = true →
          (update e uri content false p).1 = .ok true) := by
  intro p uris
  have hp : p.workspace = ⟨rootsOf (named [] ops)⟩ := workspace_serve rfl ops
  obtain ⟨x, hcomes⟩ := (op.watched e).exists_comes p
  refine ⟨fun documents libraries hasked s hs => ?_, ?_⟩
  · exact liesBelow_of_contains
      ((inside_of_operation hp hcomes).asked documents libraries hasked s hs)
  rintro uri content compileNow path rfl hpath
  refine ⟨fun hroots hout => ?_, fun hroots hsource => ?_⟩
  · have hcontains : p.workspace.contains e.disk path ≠ .ok true := by
      rw [hp]
      exact fun hin => (liesBelow_of_contains hin).elim hroots hout
    exact sheds_of_update_outside hpath hcontains (Prod.ext rfl rfl)
  · exact update_of_rootless content (hp.trans (congrArg Workspace.mk hroots)) hpath hsource

/-- Two directories with a file each. -/
def twoDirectories : Surroundings where
  compiler := .standard
  disk := {
    workingDirectory := []
    entries := [
      (["one"], .directory),
      (["one", "a.npl"], .file (.bytes (Text.Utf8.encode "package a".toList))),
      (["two"], .directory),
      (["two", "b.npl"], .file (.bytes (Text.Utf8.encode "package b".toList)))] }

/-- The first directory is made the workspace, under a URI and another one that is no file path. -/
def narrowed : List (Surroundings × Operation) :=
  [(twoDirectories, .setRoots ["untitled:new", "file:///one"])]

/-- Only the URI that is no file path is named. -/
def rootless : List (Surroundings × Operation) :=
  [(twoDirectories, .setRoots ["untitled:new"])]

/-- The document in the first directory, as it is edited. -/
def editedInside : Source :=
  ⟨"file:///one/a.npl", ⟨.single, ["one", "a.npl"]⟩, "package a\n", false⟩

/-- The document in the first directory comes to the compiler and lies below it; the one in the
second directory is not taken over. With the other URI alone it is. -/
theorem inside_of_serve_twoDirectories :
    .asked [editedInside] [] ∈ ((Operation.update editedInside.uri "package a\n" true).watched
      twoDirectories).told (serve (start (.start .plain 30 false)) narrowed) ∧
    LiesBelow twoDirectories.disk (named [] narrowed) editedInside.location ∧
    rootsOf (named [] narrowed) ≠ [] ∧
    (update twoDirectories "file:///two/b.npl" "package b\n" true
      (serve (start (.start .plain 30 false)) narrowed)).1 ≠ .ok true ∧
    named [] rootless ≠ [] ∧ rootsOf (named [] rootless) = [] ∧
    (update twoDirectories "file:///two/b.npl" "package b\n" false
      (serve (start (.start .plain 30 false)) rootless)).1 = .ok true := by
  have hgiven : ([editedInside], []) ∈ (((Operation.update editedInside.uri "package a\n"
      true).watched twoDirectories).told (serve (start (.start .plain 30 false)) narrowed)).filterMap
        Moment.given? := by decide +kernel
  have hasked := mem_of_given hgiven
  have hroots : rootsOf (named [] narrowed) ≠ [] := by decide +kernel
  have hnone : rootsOf (named [] rootless) = [] := by decide +kernel
  have hpath : Path.ofUri "file:///two/b.npl" = .ok ⟨.single, ["two", "b.npl"]⟩ :=
    toOption_eq_some_iff.1 (by decide +kernel)
  have hout : ¬ LiesBelow twoDirectories.disk (named [] narrowed) ⟨.single, ["two", "b.npl"]⟩ := by
    rintro ⟨uri, huri, root, top, l, hof, htop, hl, hprefix⟩
    have huris : named [] narrowed = ["untitled:new", "file:///one"] := by decide +kernel
    have hleads : twoDirectories.disk.realPath ⟨.single, ["two", "b.npl"]⟩ =
        .at ["two", "b.npl"] := by decide +kernel
    obtain rfl := Destination.at.inj (hleads.symm.trans hl)
    obtain rfl | rfl : uri = "untitled:new" ∨ uri = "file:///one" := by simpa [huris] using huri
    · have hnot : (Path.ofUri "untitled:new").toOption = none := by decide +kernel
      simp [hof, Except.toOption] at hnot
    · have hone : (Path.ofUri "file:///one").toOption = some ⟨.single, ["one"]⟩ := by decide +kernel
      obtain rfl : root = ⟨.single, ["one"]⟩ := by simpa [hof, Except.toOption] using hone
      have hfirst : twoDirectories.disk.realPath ⟨.single, ["one"]⟩ = .at ["one"] := by
        decide +kernel
      obtain rfl := Destination.at.inj (hfirst.symm.trans htop)
      simp at hprefix
  refine ⟨hasked, ?_, hroots, ?_, by decide, hnone, ?_⟩
  · obtain ⟨hbelow, -⟩ := inside_of_serve (.start .plain 30 false) narrowed twoDirectories
      (.update editedInside.uri "package a\n" true)
    exact (hbelow _ _ hasked editedInside (by simp)).resolve_left hroots
  · obtain ⟨-, hrefused⟩ := inside_of_serve (.start .plain 30 false) narrowed twoDirectories
      (.update "file:///two/b.npl" "package b\n" true)
    exact ((hrefused _ _ _ _ rfl hpath).1 hroots hout).1
  · obtain ⟨-, htaken⟩ := inside_of_serve (.start .plain 30 false) rootless twoDirectories
      (.update "file:///two/b.npl" "package b\n" false)
    exact (htaken _ _ _ _ rfl hpath).2 hnone (by decide +kernel)

end Npl.Project
