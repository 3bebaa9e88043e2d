import Npl.Proofs.Project.Operation

/-!
# Watching actions

What an action leaves behind does not tell all that it did: an attempt to compile that is refused
leaves no trace in the project, and the journal keeps of the sources that were compiled their
locations only. A watched action tells the moments on its way that matter: when the documents were
changed, what the compiler was given, and how an attempt to compile ended.

The watched operations are those of the project, clause by clause, with the moments noted.
Forgetting the moments leaves the operation.

## Main definitions

* `Project.Moment`, `Project.Watched` — moments, and actions that tell them.
* `Project.Operation.watched` — the watched operations.

## Main results

* `Project.Watched.comes_bind_iff` — one watched action after another.
* `Project.Watched.load_cases` — what a watched load tells.
* `Project.Operation.act_watched` — a watched operation does what the operation does.
-/

namespace Npl.Project

/-- What can happen on the way of an action. -/
inductive Moment
  /-- The documents were changed. -/
  | changed
  /-- The compiler was given documents and libraries. -/
  | asked (documents libraries : List Source)
  /-- An attempt to compile has ended. -/
  | attempted (x : Except Refusal (Option Outcome))

/-- The documents and libraries that the compiler was given, if it was. -/
def Moment.given? : Moment → Option (List Source × List Source)
  | .asked documents libraries => some (documents, libraries)
  | .changed | .attempted _ => none

theorem mem_of_given {ms : List Moment} {documents libraries : List Source}
    (h : (documents, libraries) ∈ ms.filterMap Moment.given?) :
    .asked documents libraries ∈ ms := by
  obtain ⟨m, hm, hgiven⟩ := List.mem_filterMap.1 h
  cases m with
  | asked documents' libraries' =>
      obtain ⟨rfl, rfl⟩ : documents' = documents ∧ libraries' = libraries := by
        simpa [Moment.given?] using hgiven
      exact hm
  | changed | attempted x => simp [Moment.given?] at hgiven

/-- An action, and what happens on its way from each project. -/
structure Watched (α : Type) where
  act : Action α
  told : Project → List Moment

namespace Watched

open Npl.Project.Action (Ends)

variable {α β : Type} {e : Surroundings} {p q : Project}

/-! ### Making watched actions -/

/-- An action on whose way nothing happens that matters. -/
def silent (a : Action α) : Watched α :=
  ⟨a, fun _ => []⟩

/-- An action that changes the documents, unless it is refused. -/
def changing (a : Action α) : Watched α :=
  ⟨a, fun p => if (a p).1.isOk then [.changed] else []⟩

/-- An action that gives documents and libraries to the compiler. -/
def asking (documents libraries : List Source) (a : Action α) : Watched α :=
  ⟨a, fun _ => [.asked documents libraries]⟩

/-- An attempt to compile, which ends one way or the other. -/
def attempting (w : Watched (Option Outcome)) : Watched (Option Outcome) :=
  ⟨w.act, fun p => w.told p ++ [.attempted (w.act p).1]⟩

/-- One watched action after another. Behind a refusal nothing happens. -/
instance : Monad Watched where
  pure a := silent (pure a)
  bind w f := {
    act := w.act >>= fun x => (f x).act
    told := fun p => w.told p ++ match w.act p with
      | (.ok x, q) => (f x).told q
      | (.error _, _) => [] }

/-- Ignores the result. -/
def ignoring (w : Watched α) : Watched Unit :=
  ⟨discard w.act, w.told⟩

/-- Deals with a refusal in silence. -/
def catching (w : Watched α) (handler : Refusal → Action α) : Watched α :=
  ⟨tryCatch w.act handler, w.told⟩

/-! ### Watched operations -/

/-- Watches `Project.recompile`. -/
def recompile (e : Surroundings) : Watched (Option Outcome) := do
  let p ← silent get
  if p.isSettled then return none
  attempting do
    let documents ← silent (answer (p.candidates e))
    if documents.isEmpty then
      silent (say Level.debug "No sources in scope, skipping compilation")
      return none
    let dirty := p.documents.dirty
    let libraries := p.librariesBeside documents
    silent (say Level.debug ("Compiling " ++ toString documents.length ++ " sources (" ++
      toString dirty.entries.length ++ " dirty) with " ++ toString libraries.length ++
      " library sources"))
    match ← asking documents libraries (runCompiler e (documents ++ libraries)) with
    | .error cause =>
      silent (log (.ofFailure "service" ("Compiler failed unexpectedly, keeping " ++
        toString dirty.entries.length ++ " dirty sources") cause))
      return none
    | .ok (.fault m) =>
      silent (takeFault e m)
      return some (.fault m)
    | .ok (.finished report) =>
      silent (takeReport e report documents dirty)
      return some (.finished report)

/-- Watches `Project.forget`. -/
def forget (e : Surroundings) (uri : String) : Watched Unit :=
  changing (Project.forget e uri)

/-- Watches `Project.dropOutside`. -/
def dropOutside (e : Surroundings) (uri : String) : Watched Unit := do
  let p ← silent get
  if ← silent (answer ((p.documents.contains e.disk.workingPath uri).mapError Refusal.uri)) then
    silent (say Level.info ("Document " ++ uri ++ " is outside the workspace, dropping it"))
    forget e uri
    silent (retract e uri)
    ignoring (recompile e)

/-- Watches `Project.update`. -/
def update (e : Surroundings) (uri content : String) (compileNow : Bool) : Watched Bool := do
  match Path.ofUri uri with
  | .error _ =>
    silent (say Level.debug ("Ignoring non-file document " ++ uri))
    return false
  | .ok path =>
    if !path.isSource then return false
    let p ← silent get
    if ← silent (answer (p.workspace.contains e.disk path)) then
      changing (onDocuments fun d => (d.update e.disk.workingPath uri content).1)
      if compileNow then ignoring (recompile e)
      return true
    else
      dropOutside e uri
      return false

/-- Watches `Project.remove`. -/
def remove (e : Surroundings) (uri : String) : Watched Unit := do
  forget e uri
  ignoring (recompile e)
  silent (retract e uri)

/-- Watches `Project.close`. -/
def close (e : Surroundings) (uri : String) : Watched Bool := do
  match Path.ofUri uri with
  | .error _ => return false
  | .ok path =>
    if ← silent (answer ((e.disk.exists? path).mapError Refusal.lookup)) then return false
    remove e uri
    return true

/-- Watches `Project.dropLeaving`. -/
def dropLeaving (e : Surroundings) : List Source → Watched Unit
  | [] => return
  | s :: ss => do
    let p ← silent get
    if !(← silent (answer (p.workspace.contains e.disk s.location))) then
      silent (say Level.debug ("Document " ++ s.uri ++ " left the workspace"))
      forget e s.uri
      silent (retract e s.uri)
    dropLeaving e ss

/-- Watches `Project.setRoots`. -/
def setRoots (e : Surroundings) (uris : List String) : Watched Unit := do
  let roots ← silent (rootPaths uris)
  silent (modify fun p => { p with workspace := ⟨roots⟩ })
  let p ← silent get
  dropLeaving e p.documents.all
  ignoring (recompile e)

/-- Watches `Project.finishLoad`. -/
def finishLoad (e : Surroundings) (libraries : List Source)
    (vanished : Except UriError (List String)) : Watched Unit := do
  let vanished ← silent (answer (vanished.mapError Refusal.uri))
  silent (modify fun p => { p with libraries })
  silent ((vanished.mergeSort fun a b => !(b < a)).forM (retract e))
  ignoring (recompile e)

/-- Watches `Project.load`. -/
def load (e : Surroundings) (uris references : List String) : Watched Unit := do
  let roots ← silent (rootPaths uris)
  let (gathered, records) := gather e.disk roots references
  silent (records.forM log)
  let (sources, libraries) ← silent (answer gathered)
  let p ← silent get
  let (documents, vanished) := p.documents.replaceAll e.disk.workingPath sources
  changing (set { p with workspace := ⟨roots⟩, documents })
  finishLoad e libraries vanished

end Watched

/-- The watched operations. -/
def Operation.watched (e : Surroundings) : Operation → Watched Unit
  | update uri content compileNow => .ignoring (.update e uri content compileNow)
  | remove uri => .remove e uri
  | close uri => .ignoring (.close e uri)
  | setRoots uris => .setRoots e uris
  | load uris references => .load e uris references
  | recompile => .ignoring (.recompile e)

namespace Watched

open Npl.Project.Action (Ends)

variable {α β : Type} {e : Surroundings} {p q : Project}

/-! ### Forgetting the moments -/

theorem act_bind (w : Watched α) (f : α → Watched β) :
    (w >>= f).act = w.act >>= fun x => (f x).act := rfl

/-- Actions on a condition agree if they agree either way. -/
theorem act_ite_congr {c : Prop} [Decidable c] {w w' : Watched α} {a a' : Action α}
    (h : w.act = a) (h' : w'.act = a') : (if c then w else w').act = if c then a else a' := by
  rw [apply_ite act c w w', h, h']

/-- Actions agree if they agree behind what they start with. -/
theorem act_bind_congr {w : Watched α} {f : α → Watched β} {g : α → Action β}
    (h : ∀ x, (f x).act = g x) : (w >>= f).act = w.act >>= g :=
  congrArg (w.act >>= ·) (funext h)

theorem act_recompile (e : Surroundings) : (recompile e).act = Project.recompile e := by
  refine act_bind_congr fun p => act_ite_congr rfl (act_bind_congr fun documents =>
    act_ite_congr rfl (act_bind_congr fun _ => act_bind_congr fun result => ?_))
  rcases result with cause | (report | message)
  · rfl
  · rfl
  · rfl

theorem act_dropOutside (e : Surroundings) (uri : String) :
    (dropOutside e uri).act = Project.dropOutside e uri := by
  refine act_bind_congr fun p => act_bind_congr fun known => act_ite_congr (act_bind_congr fun _ =>
    act_bind_congr fun _ => act_bind_congr fun _ => ?_) rfl
  exact congrArg discard (act_recompile e)

theorem act_update (e : Surroundings) (uri content : String) (compileNow : Bool) :
    (update e uri content compileNow).act = Project.update e uri content compileNow := by
  unfold update Project.update
  cases Path.ofUri uri with
  | error r => rfl
  | ok path =>
      refine act_ite_congr rfl (act_bind_congr fun p => act_bind_congr fun inside =>
        act_ite_congr (act_bind_congr fun _ => ?_) ?_)
      · cases compileNow with
        | true =>
            exact congrArg (fun a => discard a >>= fun _ => pure true) (act_recompile e)
        | false => rfl
      · exact congrArg (· >>= fun _ => pure false) (act_dropOutside e uri)

theorem act_remove (e : Surroundings) (uri : String) :
    (remove e uri).act = Project.remove e uri :=
  act_bind_congr fun _ => congrArg (fun a => discard a >>= fun _ => retract e uri) (act_recompile e)

theorem act_close (e : Surroundings) (uri : String) : (close e uri).act = Project.close e uri := by
  unfold close Project.close
  cases Path.ofUri uri with
  | error r => rfl
  | ok path =>
      exact act_bind_congr fun there =>
        act_ite_congr rfl (congrArg (· >>= fun _ => pure true) (act_remove e uri))

theorem act_dropLeaving (e : Surroundings) (ss : List Source) :
    (dropLeaving e ss).act = Project.dropLeaving e ss := by
  induction ss with
  | nil => rfl
  | cons s ss ih =>
      refine act_bind_congr fun p => act_bind_congr fun inside => ?_
      cases inside with
      | true => exact ih
      | false => exact act_bind_congr fun _ => act_bind_congr fun _ => act_bind_congr fun _ => ih

theorem act_setRoots (e : Surroundings) (uris : List String) :
    (setRoots e uris).act = Project.setRoots e uris := by
  refine act_bind_congr fun roots => act_bind_congr fun _ => act_bind_congr fun p => ?_
  rw [act_bind, act_dropLeaving]
  exact congrArg (fun a => Project.dropLeaving e p.documents.all >>= fun _ => discard a)
    (act_recompile e)

theorem act_load (e : Surroundings) (uris references : List String) :
    (load e uris references).act = Project.load e uris references := by
  refine act_bind_congr fun roots => act_bind_congr fun _ => act_bind_congr fun gathered =>
    act_bind_congr fun p => act_bind_congr fun _ => act_bind_congr fun vanished =>
      act_bind_congr fun _ => act_bind_congr fun _ => ?_
  exact congrArg discard (act_recompile e)

/-! ### What watched actions come to -/

/-- The action takes the project `p` to the result `x` and the project `q`, and tells `ms`. -/
structure Comes (w : Watched α) (p : Project) (ms : List Moment) (x : Except Refusal α)
    (q : Project) : Prop where
  ends : Ends w.act p x q
  told : w.told p = ms

/-- From every project an action comes to something. -/
theorem exists_comes (w : Watched α) (p : Project) : ∃ x, w.Comes p (w.told p) x (w.act p).2 :=
  ⟨_, Prod.ext rfl rfl, rfl⟩

/-- One watched action after another. -/
theorem comes_bind_iff {w : Watched α} {f : α → Watched β} {ms : List Moment}
    {x : Except Refusal β} :
    (w >>= f).Comes p ms x q ↔
      (∃ r, w.Comes p ms (.error r) q ∧ x = .error r) ∨
        ∃ y mid ms' ms'', w.Comes p ms' (.ok y) mid ∧ (f y).Comes mid ms'' x q ∧
          ms = ms' ++ ms'' := by
  have htold : (w >>= f).told p = w.told p ++ match w.act p with
      | (.ok y, mid) => (f y).told mid
      | (.error _, _) => [] := rfl
  constructor
  · rintro ⟨hends, rfl⟩
    rw [act_bind] at hends
    rcases Action.ends_bind_iff.1 hends with ⟨r, hr, rfl⟩ | ⟨y, mid, hy, hrest⟩
    · refine .inl ⟨r, ⟨hr, ?_⟩, rfl⟩
      rw [htold, show w.act p = (.error r, q) from hr, List.append_nil]
    · refine .inr ⟨y, mid, w.told p, (f y).told mid, ⟨hy, rfl⟩, ⟨hrest, rfl⟩, ?_⟩
      rw [htold, show w.act p = (.ok y, mid) from hy]
  · rintro (⟨r, ⟨hr, rfl⟩, rfl⟩ | ⟨y, mid, ms', ms'', ⟨hy, rfl⟩, ⟨hrest, rfl⟩, rfl⟩)
    · refine ⟨Action.ends_bind_iff.2 (.inl ⟨r, hr, rfl⟩), ?_⟩
      rw [htold, show w.act p = (.error r, q) from hr, List.append_nil]
    · refine ⟨Action.ends_bind_iff.2 (.inr ⟨y, mid, hy, hrest⟩), ?_⟩
      rw [htold, show w.act p = (.ok y, mid) from hy]

variable {w : Watched α} {f : α → Watched β} {ms : List Moment}

/-- A watched action behind a silent one. -/
theorem comes_silent_bind_iff {a : Action α} {ms : List Moment} {x : Except Refusal β} :
    (silent a >>= f).Comes p ms x q ↔
      (∃ r, Ends a p (.error r) q ∧ x = .error r ∧ ms = []) ∨
        ∃ y mid, Ends a p (.ok y) mid ∧ (f y).Comes mid ms x q := by
  rw [comes_bind_iff]
  constructor
  · rintro (⟨r, ⟨hr, rfl⟩, rfl⟩ | ⟨y, mid, ms', ms'', ⟨hy, rfl⟩, hrest, rfl⟩)
    · exact .inl ⟨r, hr, rfl, rfl⟩
    · exact .inr ⟨y, mid, hy, hrest⟩
  · rintro (⟨r, hr, rfl, rfl⟩ | ⟨y, mid, hy, hrest⟩)
    · exact .inl ⟨r, ⟨hr, rfl⟩, rfl⟩
    · exact .inr ⟨y, mid, [], ms, ⟨hy, rfl⟩, hrest, rfl⟩

/-- Looking at the project first. -/
theorem comes_get_bind_iff {f : Project → Watched β} {x : Except Refusal β} :
    (silent get >>= f).Comes p ms x q ↔ (f p).Comes p ms x q := by
  rw [comes_silent_bind_iff]
  constructor
  · rintro (⟨r, hr, -⟩ | ⟨y, mid, hy, hrest⟩)
    · exact absurd ((Action.ends_iff_of_eq rfl).1 hr).1 (by simp)
    · obtain ⟨hy, rfl⟩ := (Action.ends_iff_of_eq rfl).1 hy
      obtain rfl := Except.ok.inj hy
      exact hrest
  · exact fun h => .inr ⟨p, p, rfl, h⟩

/-- A change that is not refused is told. -/
theorem comes_changing_bind_iff {a : Action α} {x : Except Refusal β} :
    (changing a >>= f).Comes p ms x q ↔
      (∃ r, Ends a p (.error r) q ∧ x = .error r ∧ ms = []) ∨
        ∃ y mid rest, Ends a p (.ok y) mid ∧ (f y).Comes mid rest x q ∧ ms = .changed :: rest := by
  rw [comes_bind_iff]
  constructor
  · rintro (⟨r, ⟨hr, rfl⟩, rfl⟩ | ⟨y, mid, ms', ms'', ⟨hy, rfl⟩, hrest, rfl⟩)
    · refine .inl ⟨r, hr, rfl, ?_⟩
      simp [changing, show a p = (.error r, q) from hr, Except.isOk, Except.toBool]
    · refine .inr ⟨y, mid, ms'', hy, hrest, ?_⟩
      simp [changing, show a p = (.ok y, mid) from hy, Except.isOk, Except.toBool]
  · rintro (⟨r, hr, rfl, rfl⟩ | ⟨y, mid, rest, hy, hrest, rfl⟩)
    · refine .inl ⟨r, ⟨hr, ?_⟩, rfl⟩
      simp [changing, show a p = (.error r, q) from hr, Except.isOk, Except.toBool]
    · refine .inr ⟨y, mid, [.changed], rest, ⟨hy, ?_⟩, hrest, rfl⟩
      simp [changing, show a p = (.ok y, mid) from hy, Except.isOk, Except.toBool]

/-- An attempt tells how it ends. -/
theorem comes_attempting_iff {w : Watched (Option Outcome)} {ms : List Moment}
    {x : Except Refusal (Option Outcome)} :
    (attempting w).Comes p ms x q ↔ ∃ before, w.Comes p before x q ∧
      ms = before ++ [.attempted x] := by
  have htold : ∀ {x}, Ends w.act p x q →
      (attempting w).told p = w.told p ++ [.attempted x] :=
    fun hends => congrArg (fun y => w.told p ++ [Moment.attempted y]) (congrArg Prod.fst hends)
  constructor
  · rintro ⟨hends, rfl⟩
    exact ⟨w.told p, ⟨hends, rfl⟩, htold hends⟩
  · rintro ⟨before, ⟨hends, rfl⟩, rfl⟩
    exact ⟨hends, htold hends⟩

/-- A watched load tells nothing if what it needs cannot be gathered. Otherwise it tells that the
documents were changed, when all of them are replaced by what is found below the roots, and goes on
from there. -/
theorem load_cases {uris references : List String} {ms : List Moment} {x : Except Refusal Unit}
    (h : (load e uris references).Comes p ms x q) :
    (∃ r, (gather e.disk (rootsOf uris) references).1 = .error r ∧ ms = [] ∧ Logged p q) ∨
      ∃ sources libraries mid rest,
        (gather e.disk (rootsOf uris) references).1 = .ok (sources, libraries) ∧ Logged p mid ∧
        (finishLoad e libraries (p.documents.replaceAll e.disk.workingPath sources).2).Comes
          { mid with
            workspace := ⟨rootsOf uris⟩
            documents := (p.documents.replaceAll e.disk.workingPath sources).1 } rest x q ∧
        ms = .changed :: rest := by
  rcases comes_silent_bind_iff.1 h with ⟨r, hr, -⟩ | ⟨roots, told, htold, hfound⟩
  · exact absurd (ends_rootPaths hr).1 (by simp)
  obtain ⟨hroots, hlogged⟩ := ends_rootPaths htold
  obtain rfl := Except.ok.inj hroots
  rcases comes_silent_bind_iff.1 hfound with ⟨r, hr, -⟩ | ⟨u, mid, hrecords, hloaded⟩
  · exact absurd (Action.logged_of_ends_forM hr).1 (by simp)
  have hlogged := hlogged.trans (Action.logged_of_ends_forM hrecords).2
  rcases comes_silent_bind_iff.1 hloaded with
    ⟨r, hr, -, rfl⟩ | ⟨⟨sources, libraries⟩, same, hsame, hreplace⟩
  · obtain ⟨hrefused, rfl⟩ := Action.ends_answer_iff.1 hr
    exact .inl ⟨r, hrefused.symm, rfl, hlogged⟩
  obtain ⟨hgathered, rfl⟩ := Action.ends_answer_iff.1 hsame
  rcases comes_changing_bind_iff.1 (comes_get_bind_iff.1 hreplace) with
    ⟨r, hr, -⟩ | ⟨u', replaced, rest, hreplaced, hrest, rfl⟩
  · exact absurd (Action.ends_set_iff.1 hr).1 (by simp)
  obtain ⟨-, rfl⟩ := Action.ends_set_iff.1 hreplaced
  rw [hlogged.documents] at hrest
  exact .inr ⟨sources, libraries, same, rest, hgathered.symm, hlogged, hrest, rfl⟩

/-- Ignoring the result. -/
theorem exists_of_comes_ignoring {x : Except Refusal Unit} (h : (ignoring w).Comes p ms x q) :
    ∃ y, w.Comes p ms y q := by
  obtain ⟨y, hy, -⟩ := Action.ends_discard_iff.1 h.ends
  exact ⟨y, hy, h.told⟩

end Watched

/-- **A watched operation does what the operation does.** -/
theorem Operation.act_watched (e : Surroundings) (op : Operation) :
    (op.watched e).act = op.act e := by
  cases op with
  | update uri content compileNow =>
      exact congrArg discard (Watched.act_update e uri content compileNow)
  | remove uri => exact Watched.act_remove e uri
  | close uri => exact congrArg discard (Watched.act_close e uri)
  | setRoots uris => exact Watched.act_setRoots e uris
  | load uris references => exact Watched.act_load e uris references
  | recompile => exact congrArg discard (Watched.act_recompile e)

end Npl.Project
