import Npl.Proofs.Project.Sparing

/-!
# A compilation and an operation as threads

What a thread has to do has a shape that its steps keep. A worker that compiles takes the lock,
carries out the commands of a compilation, and gives the lock back. A handler that carries out an
operation is more varied. What matters is how it takes a document out: it does so under the lock, or
it takes the lock next; and it clears the diagnostics of the document later on. Unless it is to remove
a document, it clears all diagnostics before it compiles.

## Main definitions

* `Project.Command.Leads` — what can come next.
* `Project.WorkerAt` — how far the worker can be, given who has the lock.
* `Project.Disciplined` — what the handler can have to do, given whether it has the lock.
* `Project.ShowsLast` — nothing is cleared behind what may show something.
* `Project.HandlerAt` — how far the handler can be, given who has the lock.

## Main results

* `Project.WorkerAt.step`, `Project.Disciplined.act` — the steps keep the shapes.
* `Project.Disciplined.operation` — every operation starts in shape.
* `Project.ShowsLast.operation` — operations that remove nothing show last.
* `Project.WorkerAt.goes_on`, `Project.HandlerAt.goes_on` — what keeps a thread from going on.
-/

namespace Npl.Project

open Npl.Project.Action

variable {e : Surroundings} {p q : Project} {c : Command} {u : String}

/-! ### What comes next -/

/-- What a command can come to, if it is carried out. -/
def Command.Leads (e : Surroundings) : Command → List Command → Prop
  | post _, next => ∃ (notices : List Notice) (records : List LogRecord),
    next = notices.map send ++ records.map write
  | note, next => next = [] ∨ ∃ stamps, next = [read stamps]
  | read stamps, next => ∃ documents libraries, next = compiling stamps documents libraries
  | compile stamps documents libraries, next =>
    next = taking stamps documents (e.compiler (documents ++ libraries)).result
  | judge message, next => ∃ records : List LogRecord,
    next = records.map write ∨ next = records.map write ++ [post (.fault message)]
  | replace _ libraries, next => ∃ uris : List String,
    next = equip libraries :: uris.map fun uri => post (.retract uri)
  | enter uri content _ compileNow, next =>
    next = edit uri content :: (if compileNow then recompiling else []) ∨ next = [expel uri]
  | expel uri, next => next = [] ∨ ∃ r : LogRecord,
    next = [write r, lock, forget uri, post (.retract uri), unlock] ++ recompiling
  | sift, next => ∃ sources : List Source, next = sources.map leave
  | leave s, next => next = [] ∨ ∃ r : LogRecord,
    next = [write r, forget s.uri, post (.retract s.uri)]
  | lock, next | unlock, next | write _, next | send _, next | store _, next | strike _, next
  | edit .., next | forget _, next | rescope _, next | equip _, next | refuse _, next => next = []

theorem leads_of_act {next : List Command} (h : Ends (c.act e) p (.ok next) q) :
    c.Leads e next := by
  cases c with
  | lock | unlock | write | send | store | strike | edit | rescope | equip =>
      exact Except.ok.inj ((ends_iff_of_eq rfl).1 h).1
  | refuse => exact absurd ((ends_iff_of_eq rfl).1 h).1 (by simp)
  | forget uri =>
      obtain ⟨y, -, hnext⟩ := ends_bind_pure_iff.1 h
      obtain ⟨-, -, hnext⟩ := map_eq_ok_iff.1 hnext.symm
      exact hnext.symm
  | sift => exact ⟨_, Except.ok.inj ((ends_iff_of_eq rfl).1 h).1⟩
  | note =>
      obtain ⟨hnext, -⟩ := (ends_iff_of_eq rfl).1 h
      rw [Except.ok.inj hnext]
      split
      · exact .inl rfl
      · exact .inr ⟨_, rfl⟩
  | compile => exact Except.ok.inj (compile_cases h).2
  | post call =>
      rcases post_cases h with ⟨r, -, hr, -⟩ | ⟨board, notices, records, -, hnext, -⟩
      · simp at hr
      · exact ⟨notices, records, Except.ok.inj hnext⟩
  | replace sources libraries =>
      obtain ⟨-, ⟨r, -, hr⟩ | ⟨vanished, -, hnext⟩⟩ := replace_cases h
      · simp at hr
      · exact ⟨_, Except.ok.inj hnext⟩
  | read stamps =>
      obtain ⟨-, ⟨r, -, hr⟩ | ⟨documents, -, hnext⟩⟩ := ask_cases rfl h
      · simp at hr
      · exact ⟨_, _, Except.ok.inj hnext⟩
  | judge message =>
      obtain ⟨-, ⟨r, -, hr⟩ | ⟨inside, -, hnext⟩⟩ := ask_cases rfl h
      · simp at hr
      · rw [Except.ok.inj hnext]
        split
        · exact ⟨[_], .inr rfl⟩
        · exact ⟨[_], .inl rfl⟩
  | leave s =>
      obtain ⟨-, ⟨r, -, hr⟩ | ⟨inside, -, hnext⟩⟩ := ask_cases rfl h
      · simp at hr
      · rw [Except.ok.inj hnext]
        split
        · exact .inr ⟨_, rfl⟩
        · exact .inl rfl
  | enter uri content path compileNow =>
      obtain ⟨-, ⟨r, -, hr⟩ | ⟨inside, -, hnext⟩⟩ := ask_cases rfl h
      · simp at hr
      · rw [Except.ok.inj hnext]
        split
        · exact .inl rfl
        · exact .inr rfl
  | expel uri =>
      obtain ⟨-, ⟨r, -, hr⟩ | ⟨known, -, hnext⟩⟩ := ask_cases rfl h
      · simp at hr
      · rw [Except.ok.inj hnext]
        split
        · exact .inr ⟨_, rfl⟩
        · exact .inl rfl

/-! ### The worker -/

/-- A command of a compilation. -/
def Command.isInner : Command → Bool
  | write _ | post _ | send _ | note | read _ | compile .. | judge _ | store _ | strike _ => true
  | lock | unlock | edit .. | forget _ | rescope _ | replace .. | equip _ | enter .. | expel _
  | sift | leave _ | refuse _ => false

theorem inner_next (hc : c.isInner = true) {next : List Command}
    (h : Ends (c.act e) p (.ok next) q) : ∀ c' ∈ next, c'.isInner = true := by
  have hleads := leads_of_act h
  cases c with
  | lock | unlock | edit | forget | rescope | replace | equip | enter | expel | sift | leave
  | refuse => simp [Command.isInner] at hc
  | write | send | store | strike =>
      obtain rfl := hleads
      simp
  | note => rcases hleads with rfl | ⟨stamps, rfl⟩ <;> simp [Command.isInner]
  | read stamps =>
      obtain ⟨documents, libraries, rfl⟩ := hleads
      rw [Command.compiling]
      split <;> simp [Command.isInner]
  | judge message =>
      obtain ⟨records, rfl | rfl⟩ := hleads
      · exact List.forall_mem_map.2 fun _ _ => rfl
      · exact List.forall_mem_append.2
          ⟨List.forall_mem_map.2 fun _ _ => rfl, List.forall_mem_singleton.2 rfl⟩
  | compile stamps documents libraries =>
      obtain rfl := hleads
      rcases (e.compiler (documents ++ libraries)).result with cause | (report | message) <;>
        simp [Command.taking, Command.isInner]
  | post call =>
      obtain ⟨notices, records, rfl⟩ := hleads
      exact List.forall_mem_append.2
        ⟨List.forall_mem_map.2 fun _ _ => rfl, List.forall_mem_map.2 fun _ _ => rfl⟩

/-- How far the worker can be, given who has the lock. -/
inductive WorkerAt : Option Party → Thread → Prop
  | waiting {holder : Option Party} (h : holder ≠ some .worker) :
      WorkerAt holder (.busy Command.recompiling)
  | working {todo cs : List Command} (htodo : todo = cs ++ [.unlock])
      (h : ∀ c ∈ cs, c.isInner = true) : WorkerAt (some .worker) (.busy todo)
  | idle {holder : Option Party} (h : holder ≠ some .worker) : WorkerAt holder (.busy [])
  | refused {holder : Option Party} (h : holder ≠ some .worker) (r : Refusal) :
      WorkerAt holder (.refused r)

/-- What a thread has to do. -/
def Thread.todo : Thread → List Command
  | busy commands => commands
  | refused _ => []

/-- A command is carried out, unless it is about the lock and the lock is not in the right hands. -/
theorem exists_step {who : Party} {holder : Option Party} (hlock : c = .lock → holder = none)
    (hunlock : c = .unlock → holder = some who) (p : Project) (cs : List Command) :
    ∃ q holder' t', Scene.Step e who ⟨p, holder, .busy (c :: cs)⟩ ⟨q, holder', t'⟩ := by
  by_cases hfree : c.isLocking = false
  · rcases hends : c.act e p with ⟨x | next, q⟩
    · exact ⟨_, _, _, .refuse hends holder cs⟩
    · exact ⟨_, _, _, .act hfree hends holder cs⟩
  · cases c with
    | lock =>
        obtain rfl := hlock rfl
        exact ⟨_, _, _, .lock p cs⟩
    | unlock =>
        obtain rfl := hunlock rfl
        exact ⟨_, _, _, .unlock p cs⟩
    | _ => exact absurd rfl hfree

namespace WorkerAt

variable {holder holder' : Option Party} {t t' : Thread}

/-- As long as the worker keeps the lock, or is without it, the lock is no matter to the worker. -/
theorem of_other (h : WorkerAt holder t) (hsame : holder' = some .worker ↔ holder = some .worker) :
    WorkerAt holder' t := by
  cases h with
  | waiting h => exact .waiting (mt hsame.1 h)
  | working htodo h =>
      obtain rfl := hsame.2 rfl
      exact .working htodo h
  | idle h => exact .idle (mt hsame.1 h)
  | refused h r => exact .refused (mt hsame.1 h) r

/-- Without the lock, the worker has nothing in hand. -/
theorem spares (h : WorkerAt holder t) (hne : holder ≠ some .worker) (wd : Path) (u : String) :
    ∀ c ∈ t.todo, c.Spares wd u := by
  cases h with
  | waiting => simp [Thread.todo, Command.recompiling, Command.Spares]
  | working => exact absurd rfl hne
  | idle | refused => simp [Thread.todo]

/-- The commands that the worker carries out are those of a compilation. -/
theorem isInner {cs : List Command} (h : WorkerAt holder (.busy (c :: cs)))
    (hfree : c.isLocking = false) : c.isInner = true := by
  cases h with
  | waiting => simp [Command.isLocking] at hfree
  | working htodo h =>
      rcases List.cons_eq_append_iff.1 htodo with ⟨-, hunlock⟩ | ⟨rest, rfl, -⟩
      · obtain ⟨rfl, -⟩ := List.cons.inj hunlock
        simp [Command.isLocking] at hfree
      · exact h c List.mem_cons_self

theorem step {s t : Scene} (h : WorkerAt s.holder s.thread) (hstep : Scene.Step e .worker s t) :
    WorkerAt t.holder t.thread := by
  cases hstep with
  | lock p commands =>
      cases h with
      | waiting =>
          have htodo : [Command.note, .unlock] = [.note] ++ [.unlock] := rfl
          exact .working htodo (by simp [Command.isInner])
  | unlock p commands =>
      cases h with
      | working htodo h =>
          rcases List.cons_eq_append_iff.1 htodo with ⟨rfl, hunlock⟩ | ⟨rest, rfl, -⟩
          · obtain ⟨-, rfl⟩ := List.cons.inj hunlock
            exact .idle (by simp)
          · exact absurd (h .unlock List.mem_cons_self) (by simp [Command.isInner])
  | act hfree hends holder commands =>
      have hinner := h.isInner hfree
      cases h with
      | waiting => simp [Command.isLocking] at hfree
      | working htodo h =>
          rcases List.cons_eq_append_iff.1 htodo with ⟨-, hunlock⟩ | ⟨rest, rfl, rfl⟩
          · obtain ⟨rfl, -⟩ := List.cons.inj hunlock
            simp [Command.isLocking] at hfree
          · -- What comes next is done before the rest of the compilation.
            refine .working (List.append_assoc _ _ _).symm fun c' hc' => ?_
            rcases List.mem_append.1 hc' with hc' | hc'
            · exact inner_next hinner hends c' hc'
            · exact h c' (List.mem_cons_of_mem _ hc')
  | refuse hends holder commands =>
      refine .refused ?_ _
      split
      · simp
      · assumption

/-- The worker goes on unless it has nothing to do, as long as the handler does not have the
lock. -/
theorem goes_on (h : WorkerAt holder t) (hne : holder ≠ some .handler) (p : Project) :
    (∃ q holder' t', Scene.Step e .worker ⟨p, holder, t⟩ ⟨q, holder', t'⟩) ∨
      t.todo = [] ∧ holder ≠ some .worker := by
  cases h with
  | idle h | refused h => exact .inr ⟨rfl, h⟩
  | waiting h =>
      refine .inl (exists_step (fun _ => ?_) (by simp) p _)
      rcases holder with - | (- | -)
      · rfl
      · exact absurd rfl h
      · exact absurd rfl hne
  | @working todo cs htodo h =>
      subst htodo
      cases cs with
      | nil => exact .inl (exists_step (by simp) (fun _ => rfl) p _)
      | cons c cs =>
          refine .inl (exists_step ?_ (fun _ => rfl) p _)
          rintro rfl
          exact absurd (h .lock List.mem_cons_self) (by simp [Command.isInner])

end WorkerAt

/-! ### The handler -/

/-- No library that the operation brings lies where the URI leads. -/
def Operation.SparesLibraries (e : Surroundings) (u : String) : Operation → Prop
  | load uris references => ∀ libraries,
    (Library.load e.disk references (rootsOf uris)).1 = .ok libraries →
      ∀ s ∈ libraries, s.location.Apart e.disk.workingPath u
  | update .. | remove _ | close _ | setRoots _ | recompile => True

/-- A command that is carried out like those of a compilation: it neither takes documents out nor
makes any of the commands that do. -/
def Command.isPlain : Command → Bool
  | edit .. | rescope _ | equip _ | refuse _ => true
  | c => c.isInner

/-- A plain command that brings no null characters in, nor a library where the URI leads. -/
structure Command.Plain (wd : Path) (u : String) (c : Command) : Prop where
  isPlain : c.isPlain = true
  fit : c.Fit wd u

theorem plain_of_inner {wd : Path} (hc : c.isInner = true) : c.Plain wd u := by
  cases c with
  | edit | rescope | replace | equip => simp [Command.isInner] at hc
  | _ => exact ⟨by simp_all [Command.isInner, Command.isPlain], trivial⟩

theorem plain_next {wd : Path} (hc : c.Plain wd u) {next : List Command}
    (h : Ends (c.act e) p (.ok next) q) : ∀ c' ∈ next, c'.Plain wd u := by
  by_cases hinner : c.isInner = true
  · exact fun c' hc' => plain_of_inner (inner_next hinner h c' hc')
  · have hleads := leads_of_act h
    cases c with
    | edit | rescope | equip | refuse =>
        obtain rfl := hleads
        simp
    | _ => exact absurd hc.isPlain hinner

/-- A command that may come behind one that takes documents out. -/
def Command.Tame (wd : Path) : Command → Prop
  | lock | unlock | write _ | note | sift => True
  | forget uri | post (.retract uri) => ∃ key, canonicalUri wd uri = .ok key
  | leave s => s.Placed wd
  | post (.report ..) | post (.fault _) | send _ | read _ | compile .. | judge _ | store _
  | strike _ | edit .. | rescope _ | replace .. | equip _ | enter .. | expel _ | refuse _ => False

theorem spares_of_tame {wd : Path} (hc : c.Tame wd) : c.Spares wd u := by
  cases c with
  | post call =>
      cases call with
      | retract => exact hc
      | report | fault => exact hc.elim
  | forget | leave => exact hc
  | lock | unlock | write | note | sift => trivial
  | _ => exact hc.elim

/-- What the handler has to do, given whether it has the lock: a document that is forgotten without
the lock is compiled away under the lock next, and its diagnostics are cleared after it was forgotten. -/
inductive Disciplined (wd : Path) (u : String) : Bool → List Command → Prop
  | nil : Disciplined wd u false []
  | lock {cs : List Command} (h : Disciplined wd u true cs) : Disciplined wd u false (.lock :: cs)
  | unlock {cs : List Command} (h : Disciplined wd u false cs) : Disciplined wd u true (.unlock :: cs)
  | plain {held : Bool} {c : Command} {cs : List Command} (hc : c.Plain wd u)
      (h : Disciplined wd u held cs) : Disciplined wd u held (c :: cs)
  | forget {held : Bool} {uri : String} {cs : List Command}
      (hlock : held = true ∨ ∃ ds, cs = .lock :: ds) (hpost : .post (.retract uri) ∈ cs)
      (htame : ∀ key, canonicalUri wd uri = .ok key → ∀ c ∈ cs, c.Tame wd)
      (h : Disciplined wd u held cs) : Disciplined wd u held (.forget uri :: cs)
  | sift {cs : List Command} (htame : ∀ c ∈ cs, c.Tame wd) (h : Disciplined wd u true cs) :
      Disciplined wd u true (.sift :: cs)
  | leave {s : Source} {cs : List Command} (hs : s.Placed wd) (htame : ∀ c ∈ cs, c.Tame wd)
      (h : Disciplined wd u true cs) : Disciplined wd u true (.leave s :: cs)
  | replace {sources libraries : List Source} {cs : List Command}
      (hfit : (Command.replace sources libraries).Fit wd u) (htame : ∀ c ∈ cs, c.Tame wd)
      (h : Disciplined wd u true cs) : Disciplined wd u true (.replace sources libraries :: cs)
  | enter {uri content : String} {path : Path} {compileNow : Bool} (hnull : NullFreeUri uri) :
      Disciplined wd u false [.enter uri content path compileNow]
  | expel {uri : String} : Disciplined wd u false [.expel uri]

namespace Disciplined

variable {wd : Path} {held : Bool} {cs ds : List Command}

theorem plains (hcs : ∀ c ∈ cs, c.Plain wd u) (h : Disciplined wd u held ds) :
    Disciplined wd u held (cs ++ ds) := by
  induction cs with
  | nil => exact h
  | cons c cs ih =>
      exact .plain (hcs c List.mem_cons_self) (ih fun c' hc' => hcs c' (List.mem_cons_of_mem _ hc'))

theorem leaves {ss : List Source} (hss : ∀ s ∈ ss, s.Placed wd) (htame : ∀ c ∈ ds, c.Tame wd)
    (h : Disciplined wd u true ds) : Disciplined wd u true (ss.map .leave ++ ds) := by
  induction ss with
  | nil => exact h
  | cons s ss ih =>
      obtain ⟨hs, hrest⟩ := List.forall_mem_cons.1 hss
      refine .leave hs (fun c hc => ?_) (ih hrest)
      rcases List.mem_append.1 hc with hc | hc
      · obtain ⟨s', hs', rfl⟩ := List.mem_map.1 hc
        exact hrest s' hs'
      · exact htame c hc

theorem tame_recompiling : ∀ c ∈ Command.recompiling, c.Tame wd := by
  simp [Command.recompiling, Command.Tame]

theorem recompiling : Disciplined wd u false Command.recompiling :=
  .lock (.plain ⟨rfl, trivial⟩ (.unlock .nil))

/-- Forgetting a document under the lock and clearing its diagnostics. -/
theorem drop (uri : String) (htame : ∀ c ∈ ds, c.Tame wd) (h : Disciplined wd u true ds) :
    Disciplined wd u true (.forget uri :: .post (.retract uri) :: ds) := by
  refine .forget (.inl rfl) List.mem_cons_self (fun key hkey => ?_) (.plain ⟨rfl, trivial⟩ h)
  exact List.forall_mem_cons.2 ⟨⟨key, hkey⟩, htame⟩

theorem act (hp : p.Tidy e.disk)
    (h : Disciplined e.disk.workingPath u held (c :: cs)) (hfree : c.isLocking = false)
    {next : List Command} (hends : Ends (c.act e) p (.ok next) q) :
    Disciplined e.disk.workingPath u held (next ++ cs) := by
  cases h with
  | lock | unlock => simp [Command.isLocking] at hfree
  | plain hc h => exact plains (plain_next hc hends) h
  | forget hlock hpost htame h =>
      obtain ⟨y, -, hnext⟩ := ends_bind_pure_iff.1 hends
      obtain ⟨-, -, rfl⟩ := map_eq_ok_iff.1 hnext.symm
      exact h
  | sift htame h =>
      obtain ⟨hnext, -⟩ := (ends_iff_of_eq rfl).1 hends
      rw [Except.ok.inj hnext]
      exact leaves (fun s hs => hp.placed_of_mem hs) htame h
  | leave hs htame h =>
      obtain ⟨-, ⟨r, -, hr⟩ | ⟨inside, -, hnext⟩⟩ := ask_cases rfl hends
      · simp at hr
      · rw [Except.ok.inj hnext]
        split
        · exact .plain ⟨rfl, trivial⟩ (drop _ htame h)
        · exact h
  | replace hfit htame h =>
      obtain ⟨-, ⟨r, -, hr⟩ | ⟨vanished, -, hnext⟩⟩ := replace_cases hends
      · simp at hr
      obtain rfl := Except.ok.inj hnext
      refine .plain ⟨rfl, hfit.2⟩ (plains (fun c hc => ?_) h)
      obtain ⟨uri, -, rfl⟩ := List.mem_map.1 hc
      exact ⟨rfl, trivial⟩
  | enter hnull =>
      obtain ⟨-, ⟨r, -, hr⟩ | ⟨inside, -, hnext⟩⟩ := ask_cases rfl hends
      · simp at hr
      · rw [Except.ok.inj hnext, List.append_nil]
        split
        · refine .plain ⟨rfl, hnull⟩ ?_
          split
          · exact recompiling
          · exact .nil
        · exact .expel
  | expel =>
      obtain ⟨-, ⟨r, -, hr⟩ | ⟨known, -, hnext⟩⟩ := ask_cases rfl hends
      · simp at hr
      · rw [Except.ok.inj hnext, List.append_nil]
        split
        · -- The document is dropped under the lock, and the others are compiled afterwards.
          refine .plain ⟨rfl, trivial⟩ (.lock (drop _ ?_ (.unlock recompiling)))
          exact List.forall_mem_cons.2 ⟨trivial, tame_recompiling⟩
        · exact .nil

theorem of_removal (uri : String) : Disciplined wd u false (removal uri) := by
  refine .forget (.inr ⟨_, rfl⟩) (by simp [Command.recompiling]) (fun key hkey => ?_)
    (.lock (.plain ⟨rfl, trivial⟩ (.unlock (.plain ⟨rfl, trivial⟩ .nil))))
  exact List.forall_mem_append.2 ⟨tame_recompiling, by simp [Command.Tame, hkey]⟩

theorem plain_of_mem_strayRoots {uris : List String} (hc : c ∈ strayRoots uris) :
    c.Plain wd u := by
  obtain ⟨uri, -, hstray⟩ := List.mem_filterMap.1 hc
  split at hstray
  · simp at hstray
  · obtain rfl := Option.some.inj hstray
    exact ⟨rfl, trivial⟩

theorem plain_of_mem_writes {rs : List LogRecord} (hc : c ∈ rs.map Command.write) :
    c.Plain wd u := by
  obtain ⟨r, -, rfl⟩ := List.mem_map.1 hc
  exact ⟨rfl, trivial⟩

/-- Every operation starts with disciplined commands. -/
theorem operation (hd : e.disk.Sane) {op : Operation} (hnull : op.NullFree)
    (hop : op.SparesLibraries e u) :
    Disciplined e.disk.workingPath u false (op.commands e) := by
  cases op with
  | update uri content compileNow =>
      simp only [Operation.commands]
      split
      · exact .plain ⟨rfl, trivial⟩ .nil
      · split
        · exact .enter hnull
        · exact .nil
  | remove uri => exact of_removal uri
  | close uri =>
      simp only [Operation.commands]
      split
      · exact .nil
      · split
        · exact .plain ⟨rfl, trivial⟩ .nil
        · split
          · exact .nil
          · exact of_removal uri
  | setRoots uris =>
      have hroots : ∀ root ∈ rootsOf uris, root.NullFree :=
        fun root hroot => (clean_of_mem_rootsOf hnull hroot).nullFree
      simp only [Operation.commands, List.append_assoc]
      refine plains (fun _ => plain_of_mem_strayRoots)
        (.lock (.plain ⟨rfl, hroots⟩ (.sift ?_ (.unlock recompiling))))
      exact List.forall_mem_cons.2 ⟨trivial, tame_recompiling⟩
  | load uris references =>
      have hroots : ∀ root ∈ rootsOf uris, root.Clean :=
        fun root hroot => clean_of_mem_rootsOf hnull hroot
      simp only [Operation.commands, List.append_assoc]
      refine plains (fun _ => plain_of_mem_strayRoots) (plains (fun _ => plain_of_mem_writes) ?_)
      split
      · exact .plain ⟨rfl, trivial⟩ .nil
      next sources libraries hgathered =>
        obtain ⟨hsources, hlibraries⟩ := gather_eq_ok_iff.1 hgathered
        have hfound := fun s hs => placed_of_mem_discover hd hroots hsources (s := s) hs
        refine .lock (.plain ⟨rfl, fun root hroot => (hroots root hroot).nullFree⟩
          (.replace ⟨hfound, hop libraries hlibraries⟩ ?_ (.unlock recompiling)))
        exact List.forall_mem_cons.2 ⟨trivial, tame_recompiling⟩
  | recompile => exact recompiling

/-- Each command leaves the project grounded. -/
theorem fit (h : Disciplined wd u held (c :: cs)) : c.Fit wd u := by
  cases h with
  | plain hc => exact hc.fit
  | replace hfit => exact hfit
  | _ => trivial

/-- Disciplined commands do not take the lock under the lock, and do not give it back without. -/
theorem held_of_lock (h : Disciplined wd u held (c :: cs)) :
    (c = .lock → held = false) ∧ (c = .unlock → held = true) := by
  cases h with
  | plain hc =>
      constructor <;> rintro rfl <;> simpa [Command.isPlain, Command.isInner] using hc.isPlain
  | _ => simp

end Disciplined

/-! ### Showing comes last -/

/-- A command that may lead to a report or a fault that is shown. -/
def Command.shows : Command → Bool
  | post (.report ..) | post (.fault _) | note | read _ | compile .. | judge _ | enter .. | expel _ =>
    true
  | post (.retract _) | lock | unlock | write _ | send _ | store _ | strike _ | edit .. | forget _
  | rescope _ | replace .. | equip _ | sift | leave _ | refuse _ => false

/-- A command that clears diagnostics or sends a list. -/
def Command.clears : Command → Bool
  | post (.retract _) | send _ => true
  | post (.report ..) | post (.fault _) | lock | unlock | write _ | note | read _ | compile .. | judge _
  | store _ | strike _ | edit .. | forget _ | rescope _ | replace .. | equip _ | enter .. | expel _
  | sift | leave _ | refuse _ => false

/-- Behind a command that may show something nothing is cleared any more. -/
def ShowsLast (cs : List Command) : Prop :=
  cs.Pairwise fun c c' => c.shows = true → c'.clears = false

/-- An operation that removes a document. -/
def Operation.isRemoval : Operation → Bool
  | remove _ | close _ => true
  | update .. | setRoots _ | load .. | recompile => false

namespace ShowsLast

variable {cs ds : List Command}

/-- What shows nothing may come before anything. -/
theorem of_append (hcs : ∀ c ∈ cs, c.shows = false) (hds : ShowsLast ds) : ShowsLast (cs ++ ds) := by
  induction cs with
  | nil => exact hds
  | cons c cs ih =>
      obtain ⟨hc, hcs⟩ := List.forall_mem_cons.1 hcs
      exact List.pairwise_cons.2 ⟨fun _ _ hshows => by simp [hc] at hshows, ih hcs⟩

theorem of_shows_eq_false (hcs : ∀ c ∈ cs, c.shows = false) : ShowsLast cs := by
  rw [← List.append_nil cs]
  exact of_append hcs .nil

/-- What comes next shows something in the end at most, and only if the command may. -/
theorem next {next : List Command} (h : Ends (c.act e) p (.ok next) q) :
    ShowsLast next ∧ (c.shows = false → ∀ c' ∈ next, c'.shows = false) := by
  have hquiet (hnext : ∀ c' ∈ next, c'.shows = false) :
      ShowsLast next ∧ (c.shows = false → ∀ c' ∈ next, c'.shows = false) :=
    ⟨of_shows_eq_false hnext, fun _ => hnext⟩
  have hleads := leads_of_act h
  cases c with
  | lock | unlock | write | send | store | strike | edit | forget | rescope | equip | refuse =>
      obtain rfl := hleads
      exact hquiet (by simp)
  | sift =>
      obtain ⟨sources, rfl⟩ := hleads
      exact hquiet (by simp [Command.shows])
  | leave s =>
      refine hquiet ?_
      rcases hleads with rfl | ⟨r, rfl⟩ <;> simp [Command.shows]
  | replace sources libraries =>
      obtain ⟨uris, rfl⟩ := hleads
      exact hquiet (by simp [Command.shows])
  | post call =>
      obtain ⟨notices, records, rfl⟩ := hleads
      exact hquiet (List.forall_mem_append.2
        ⟨List.forall_mem_map.2 fun _ _ => rfl, List.forall_mem_map.2 fun _ _ => rfl⟩)
  | note => rcases hleads with rfl | ⟨stamps, rfl⟩ <;> simp [ShowsLast, Command.shows]
  | read stamps =>
      obtain ⟨documents, libraries, rfl⟩ := hleads
      rw [Command.compiling]
      split <;> simp [ShowsLast, Command.shows]
  | judge message =>
      refine ⟨?_, by simp [Command.shows]⟩
      obtain ⟨records, rfl | rfl⟩ := hleads
      · exact of_shows_eq_false (by simp [Command.shows])
      · exact of_append (by simp [Command.shows]) (List.pairwise_singleton _ _)
  | compile stamps documents libraries =>
      obtain rfl := hleads
      rcases (e.compiler (documents ++ libraries)).result with cause | (report | message) <;>
        simp [ShowsLast, Command.taking, Command.shows]
  | enter uri content path compileNow =>
      rcases hleads with rfl | rfl
      · cases compileNow <;>
          simp [ShowsLast, Command.shows, Command.clears, Command.recompiling]
      · simp [ShowsLast, Command.shows]
  | expel uri =>
      rcases hleads with rfl | ⟨r, rfl⟩ <;>
        simp [ShowsLast, Command.shows, Command.clears, Command.recompiling]

theorem act (h : ShowsLast (c :: cs)) {next : List Command}
    (hends : Ends (c.act e) p (.ok next) q) : ShowsLast (next ++ cs) := by
  obtain ⟨hfirst, hrest⟩ := List.pairwise_cons.1 h
  obtain ⟨hnext, hshows⟩ := ShowsLast.next hends
  refine List.pairwise_append.2 ⟨hnext, hrest, fun c' hc' d hd hshows' => ?_⟩
  -- If something that comes next may show something, so may the command itself.
  refine hfirst d hd ?_
  by_contra hnot
  simp [hshows (by simpa using hnot) c' hc'] at hshows'

theorem step {who : Party} {s t : Scene} (h : ShowsLast s.thread.todo)
    (hstep : Scene.Step e who s t) : ShowsLast t.thread.todo := by
  cases hstep with
  | lock | unlock => exact (List.pairwise_cons.1 h).2
  | act _ hends => exact h.act hends
  | refuse => exact .nil

/-- From where a report or a fault is shown nothing is cleared any more. -/
theorem not_clears {call : Board.Call} (h : ShowsLast (.post call :: cs))
    (hcall : ∀ uri, call ≠ .retract uri) : ∀ c ∈ .post call :: cs, c.clears = false := by
  cases call with
  | retract uri => exact absurd rfl (hcall uri)
  | report | fault =>
      exact List.forall_mem_cons.2 ⟨rfl, fun c hc => (List.pairwise_cons.1 h).1 c hc rfl⟩

/-- Every operation shows last, unless it removes a document. -/
theorem operation {op : Operation} (hop : op.isRemoval = false) : ShowsLast (op.commands e) := by
  have hstray (uris : List String) : ∀ c ∈ strayRoots uris, c.shows = false := by
    intro c hc
    obtain ⟨uri, -, hstray⟩ := List.mem_filterMap.1 hc
    split at hstray
    · simp at hstray
    · obtain rfl := Option.some.inj hstray
      rfl
  cases op with
  | remove | close => simp [Operation.isRemoval] at hop
  | recompile => simp [ShowsLast, Operation.commands, Command.recompiling, Command.clears]
  | update uri content compileNow =>
      simp only [Operation.commands]
      split
      · simp [ShowsLast]
      · split <;> simp [ShowsLast]
  | setRoots uris =>
      simp only [Operation.commands, List.append_assoc]
      refine of_append (hstray uris) ?_
      simp [ShowsLast, Command.recompiling, Command.shows, Command.clears]
  | load uris references =>
      simp only [Operation.commands, List.append_assoc]
      refine of_append (hstray uris) (of_append (fun c hc => ?_) ?_)
      · obtain ⟨r, -, rfl⟩ := List.mem_map.1 hc
        rfl
      · split <;> simp [ShowsLast, Command.recompiling, Command.shows, Command.clears]

end ShowsLast

/-- Whether the handler has the lock. -/
def held (holder : Option Party) : Bool :=
  decide (holder = some .handler)

/-- How far the handler can be, given who has the lock. -/
inductive HandlerAt (wd : Path) (u : String) : Option Party → Thread → Prop
  | busy {holder : Option Party} {cs : List Command} (h : Disciplined wd u (held holder) cs) :
      HandlerAt wd u holder (.busy cs)
  | refused {holder : Option Party} (h : holder ≠ some .handler) (r : Refusal) :
      HandlerAt wd u holder (.refused r)

namespace HandlerAt

variable {holder holder' : Option Party} {t t' : Thread} {cs : List Command}

theorem disciplined {wd : Path} (h : HandlerAt wd u holder (.busy cs)) :
    Disciplined wd u (held holder) cs := by
  cases h with
  | busy h => exact h

/-- As long as the handler keeps the lock, or is without it, the lock is no matter to the
handler. -/
theorem of_other {wd : Path} (h : HandlerAt wd u holder t)
    (hsame : holder' = some .handler ↔ holder = some .handler) : HandlerAt wd u holder' t := by
  cases h with
  | busy h =>
      have hheld : held holder' = held holder := by simp [held, hsame]
      exact .busy (hheld ▸ h)
  | refused h r => exact .refused (mt hsame.1 h) r

theorem step (hp : p.Tidy e.disk) (ht : HandlerAt e.disk.workingPath u holder t)
    (hstep : Scene.Step e .handler ⟨p, holder, t⟩ ⟨q, holder', t'⟩) :
    HandlerAt e.disk.workingPath u holder' t' := by
  cases hstep with
  | lock p commands =>
      refine .busy ?_
      have hcs : Disciplined e.disk.workingPath u false (.lock :: commands) := ht.disciplined
      cases hcs with
      | lock h => exact h
      | plain hc => simpa [Command.isPlain, Command.isInner] using hc.isPlain
  | unlock p commands =>
      refine .busy ?_
      have hcs : Disciplined e.disk.workingPath u true (.unlock :: commands) := ht.disciplined
      cases hcs with
      | unlock h => exact h
      | plain hc => simpa [Command.isPlain, Command.isInner] using hc.isPlain
  | act hfree hends => exact .busy (ht.disciplined.act hp hfree hends)
  | refuse hends =>
      refine .refused ?_ _
      split
      · simp
      · assumption

/-- The handler goes on unless it has nothing to do, as long as the worker does not have the lock. -/
theorem goes_on {wd : Path} (h : HandlerAt wd u holder t) (hne : holder ≠ some .worker)
    (p : Project) : (∃ q holder' t', Scene.Step e .handler ⟨p, holder, t⟩ ⟨q, holder', t'⟩) ∨
      t.todo = [] ∧ holder ≠ some .handler := by
  cases h with
  | refused h => exact .inr ⟨rfl, h⟩
  | @busy cs h =>
      have hheld : held holder = true ↔ holder = some .handler := by simp [held]
      generalize held holder = b at h hheld
      cases cs with
      | nil =>
          cases h
          exact .inr ⟨rfl, by simpa using hheld⟩
      | cons c cs =>
          obtain ⟨hlock, hunlock⟩ := h.held_of_lock
          refine .inl (exists_step (fun hc => ?_) (fun hc => hheld.1 (hunlock hc)) p cs)
          rcases holder with - | (- | -)
          · rfl
          · exact absurd rfl hne
          · simp [hlock hc] at hheld

end HandlerAt

end Npl.Project
