import Mathlib.Logic.Relation
import Npl.Proofs.Project.Alone
import Npl.Proofs.Project.Beyond
import Npl.Proofs.Project.Discipline

/-!
# A compilation beside an operation

While a worker compiles what was changed before, a handler carries out an operation that drops a
document. The compilation may have begun with the document, so that it shows diagnostics for it when
the document has gone. That does no harm: the handler clears the diagnostics, and it does so after the
compilation has ended. For either it dropped the document under the lock, or it takes the lock once
between dropping the document and clearing its diagnostics.

A handler that removes a document compiles the others before it clears the diagnostics. If that comes
to a message that has no position in the protocol, it ends there, and the diagnostics are left behind.

## Main definitions

* `Project.Meeting` — two threads at work on one project.
* `Project.Meeting.Phase` — how far a document is from being dropped and cleared.
* `Project.Meeting.follow?` — the run that a schedule of the threads gives.

## Main results

* `Project.Meeting.run_iff` — runs are what schedules give.
* `Project.Meeting.Sound.progress` — the threads do not block each other.
* `Project.Meeting.cleared_of_run` — a document that is dropped is cleared, and stays so.
* `Project.Meeting.cleared_of_run_abandoned` — a document whose diagnostics are left behind.
-/

namespace Npl.Project

open Npl.Project.Action
open Relation (ReflTransGen)

variable {e : Surroundings} {p q : Project} {c : Command} {u : String}

/-! ### Meetings -/

/-- Two threads at work on one project, and who has the lock. -/
structure Meeting where
  project : Project
  holder : Option Party
  worker : Thread
  handler : Thread

namespace Meeting

/-- The worker is about to compile what has changed, and the handler is about to carry out an
operation. -/
def start (e : Surroundings) (p : Project) (op : Operation) : Meeting :=
  ⟨p, none, .busy Command.recompiling, .busy (op.commands e)⟩

/-- One step of one of the threads. -/
inductive Step (e : Surroundings) : Meeting → Meeting → Prop
  | worker {p q : Project} {holder holder' : Option Party} {t t' : Thread} (other : Thread)
      (h : Scene.Step e .worker ⟨p, holder, t⟩ ⟨q, holder', t'⟩) :
      Step e ⟨p, holder, t, other⟩ ⟨q, holder', t', other⟩
  | handler {p q : Project} {holder holder' : Option Party} {t t' : Thread} (other : Thread)
      (h : Scene.Step e .handler ⟨p, holder, t⟩ ⟨q, holder', t'⟩) :
      Step e ⟨p, holder, other, t⟩ ⟨q, holder', other, t'⟩

/-- Any steps of the two threads, one after another. -/
abbrev Run (e : Surroundings) : Meeting → Meeting → Prop :=
  ReflTransGen (Step e)

/-! ### Schedules -/

/-- The next step of one of the threads, if it has one. -/
def next? (e : Surroundings) (m : Meeting) : Party → Option Meeting
  | .worker => (Scene.next? e .worker ⟨m.project, m.holder, m.worker⟩).map fun s =>
      ⟨s.project, s.holder, s.thread, m.handler⟩
  | .handler => (Scene.next? e .handler ⟨m.project, m.holder, m.handler⟩).map fun s =>
      ⟨s.project, s.holder, m.worker, s.thread⟩

/-- The handler has not cleared the diagnostics for the URI yet. -/
def Owes (wd : Path) (u : String) (cs : List Command) : Prop :=
  ∃ uri, canonicalUri wd uri = .ok u ∧ Command.post (.retract uri) ∈ cs

/-- How far the document with the URI is from being dropped and cleared, given whether the handler
removes a document. -/
inductive Phase (e : Surroundings) (u : String) (removing : Bool) : Meeting → Prop
  /-- There still is the document. -/
  | there {m : Meeting} (h : u ∈ m.project.documents.sources.keys) : Phase e u removing m
  /-- The document was dropped while it is being compiled. The handler waits for the lock and clears
  the diagnostics afterwards. -/
  | racing {p : Project} {worker : Thread} {cs : List Command} (hgone : Gone e u p)
      (howes : Owes e.disk.workingPath u cs) (hspares : ∀ c ∈ cs, c.Spares e.disk.workingPath u) :
      Phase e u removing ⟨p, some .worker, worker, .busy (.lock :: cs)⟩
  /-- No thread shows diagnostics for the URI any more. -/
  | settled {m : Meeting} (hgone : Gone e u m.project)
      (hworker : ∀ c ∈ m.worker.todo, c.Spares e.disk.workingPath u)
      (hhandler : ∀ c ∈ m.handler.todo, c.Spares e.disk.workingPath u)
      (hshown : u ∈ m.project.display.board.shown.keys →
        Owes e.disk.workingPath u m.handler.todo)
      (hsent : m.project.display.connection.client ≠ .absent →
        m.project.display.connection.lastSent? u = some [] ∨
          Owes e.disk.workingPath u m.handler.todo ∨ .send (u, []) ∈ m.handler.todo) :
      Phase e u removing m
  /-- The handler removes a document, and was refused as a message has no position in the protocol. -/
  | misplaced {m : Meeting} {f : PlaceError} (hremoving : removing = true)
      (h : m.handler = .refused (.place f)) : Phase e u removing m

/-- What holds between the steps. -/
structure Sound (e : Surroundings) (u : String) (removing : Bool) (m : Meeting) : Prop where
  grounded : Grounded e u m.project
  worker : WorkerAt m.holder m.worker
  handler : HandlerAt e.disk.workingPath u m.holder m.handler
  last : removing = false → ShowsLast m.handler.todo
  phase : Phase e u removing m

variable {disk : Disk} {removing : Bool} {holder holder' : Option Party} {t t' other : Thread}
  {cs : List Command}

theorem not_owes {wd : Path} (h : ∀ c ∈ cs, c.clears = false) : ¬ Owes wd u cs := by
  rintro ⟨uri, -, hmem⟩
  simpa [Command.clears] using h _ hmem

theorem not_mem_send (h : ∀ c ∈ cs, c.clears = false) (notice : Notice) : .send notice ∉ cs := by
  intro hmem
  simpa [Command.clears] using h _ hmem

theorem Owes.cons {wd : Path} (h : Owes wd u cs) (c : Command) : Owes wd u (c :: cs) := by
  obtain ⟨uri, huri, hmem⟩ := h
  exact ⟨uri, huri, List.mem_cons_of_mem _ hmem⟩

theorem Owes.append {wd : Path} (h : Owes wd u cs) (ds : List Command) : Owes wd u (ds ++ cs) := by
  obtain ⟨uri, huri, hmem⟩ := h
  exact ⟨uri, huri, List.mem_append_right _ hmem⟩

theorem Owes.of_cons {wd : Path} (h : Owes wd u (c :: cs)) :
    (∃ uri, canonicalUri wd uri = .ok u ∧ c = .post (.retract uri)) ∨ Owes wd u cs := by
  obtain ⟨uri, huri, hmem⟩ := h
  rcases List.mem_cons.1 hmem with rfl | hmem
  · exact .inl ⟨uri, huri, rfl⟩
  · exact .inr ⟨uri, huri, hmem⟩

/-- Clearing takes the URI off the board, and the empty list is sent next. -/
theorem cleared_of_retract {uri : String} (huri : canonicalUri e.disk.workingPath uri = .ok u)
    {next : List Command} (h : Ends ((Command.post (.retract uri)).act e) p (.ok next) q) :
    u ∉ q.display.board.shown.keys ∧ .send (u, []) ∈ next := by
  rcases post_cases h with ⟨r, -, hr, -⟩ | ⟨board, notices, records, hpost, hnext, rfl⟩
  · simp at hr
  obtain ⟨⟨board', notice⟩, hretract, hpure⟩ := bind_eq_ok_iff.1 hpost
  obtain ⟨rfl, hrest⟩ := Prod.mk.inj (pure_eq_ok_iff.1 hpure)
  obtain ⟨rfl, -⟩ := Prod.mk.inj hrest
  obtain ⟨key, hkey, hretract⟩ := bind_eq_ok_iff.1 hretract
  obtain ⟨rfl, rfl⟩ := Prod.mk.inj (pure_eq_ok_iff.1 hretract)
  obtain rfl := Except.ok.inj ((mapError_eq_ok_iff.1 hkey).symm.trans huri)
  refine ⟨?_, ?_⟩
  · change key ∉ (p.display.board.shown.erase key).keys
    simp [Keyed.keys_erase]
  · simp [Except.ok.inj hnext]

/-- An empty list that is sent is the last one. -/
theorem lastSent_of_send {x : Except Refusal (List Command)}
    (hclient : p.display.connection.client ≠ .absent)
    (h : Ends ((Command.send (u, [])).act e) p x q) :
    q.display.connection.lastSent? u = some [] := by
  obtain ⟨-, rfl⟩ := (ends_iff_of_eq rfl).1 h
  unfold Connection.lastSent?
  rw [Display.notices_send, if_neg hclient]
  simp

theorem gone_of_inner (hd : e.disk.Sane) (hc : c.isInner = true) (hp : Gone e u p)
    {x : Except Refusal (List Command)} (h : Ends (c.act e) p x q) : Gone e u q := by
  refine ⟨(grounded_act hd (plain_of_inner hc).fit).related h hp.toGrounded,
    (lacks_act ?_ ?_).related h hp.away⟩
  · rintro uri content rfl
    simp [Command.isInner] at hc
  · rintro ss ls rfl
    simp [Command.isInner] at hc

theorem keeps_of_inner (hc : c.isInner = true) (hp : u ∈ p.documents.sources.keys)
    {x : Except Refusal (List Command)} (h : Ends (c.act e) p x q) :
    u ∈ q.documents.sources.keys := by
  refine (keeps_act ?_ ?_).related h hp
  · rintro uri rfl
    simp [Command.isInner] at hc
  · rintro ss ls rfl
    simp [Command.isInner] at hc

/-- From when on no thread shows diagnostics any more, if the handler still has to clear them. -/
theorem Phase.of_owes (hgone : Gone e u p) (hworker : ∀ c ∈ t.todo, c.Spares e.disk.workingPath u)
    (hspares : ∀ c ∈ cs, c.Spares e.disk.workingPath u) (howes : Owes e.disk.workingPath u cs) :
    Phase e u removing ⟨p, holder, t, .busy cs⟩ :=
  .settled hgone hworker hspares (fun _ => howes) fun _ => .inr (.inl howes)

/-- A command of the worker that leaves the URI alone shows no diagnostics for it. -/
theorem Phase.of_spares (hd : e.disk.Sane) (hgone : Gone e u p)
    (hc : c.Spares e.disk.workingPath u) {x : Except Refusal (List Command)}
    (hends : Ends (c.act e) p x q) (hworker : ∀ c ∈ t.todo, c.Spares e.disk.workingPath u)
    (hhandler : ∀ c ∈ other.todo, c.Spares e.disk.workingPath u)
    (hshown : u ∈ p.display.board.shown.keys → Owes e.disk.workingPath u other.todo)
    (hsent : p.display.connection.client ≠ .absent →
      p.display.connection.lastSent? u = some [] ∨
        Owes e.disk.workingPath u other.todo ∨ .send (u, []) ∈ other.todo) :
    Phase e u removing ⟨q, holder, t, other⟩ := by
  have hfades := fades_act hd hc hends
  have hclient := (client_act c).related hends
  refine .settled (gone_act hd hc hgone hends) hworker hhandler ?_ ?_
  · exact fun hmem => hshown (hfades.shown hmem)
  · exact fun hpresent => (hsent (hclient ▸ hpresent)).imp_left hfades.lastSent

/-- A step of the worker keeps the document on its way. -/
theorem Phase.worker (hd : disk.Sane) (ht : WorkerAt holder t)
    (hstep : Scene.Step ⟨disk, .standard⟩ .worker ⟨p, holder, t⟩ ⟨q, holder', t'⟩)
    (h : Phase ⟨disk, .standard⟩ u removing ⟨p, holder, t, other⟩) :
    Phase ⟨disk, .standard⟩ u removing ⟨q, holder', t', other⟩ := by
  have ht' := ht.step hstep
  cases h with
  | misplaced hremoving h => exact .misplaced hremoving h
  | there h =>
      cases hstep with
      | lock | unlock => exact .there h
      | act hfree hends => exact .there (keeps_of_inner (ht.isInner hfree) h hends)
      | refuse hends =>
          exact .there (keeps_of_inner (ht.isInner (isLocking_of_refused hends)) h hends)
  | racing hgone howes hspares =>
      -- The worker may show diagnostics until it gives the lock back. Then it has nothing in hand.
      have hspares' : ∀ c ∈ Command.lock :: _, c.Spares disk.workingPath u :=
        List.forall_mem_cons.2 ⟨trivial, hspares⟩
      cases hstep with
      | unlock => exact .of_owes hgone (ht'.spares (by simp) _ _) hspares' (howes.cons _)
      | act hfree hends =>
          exact .racing (gone_of_inner hd (ht.isInner hfree) hgone hends) howes hspares
      | refuse hends =>
          have hgone' := gone_of_inner hd (ht.isInner (isLocking_of_refused hends)) hgone hends
          exact .of_owes hgone' (ht'.spares (by simp) _ _) hspares' (howes.cons _)
  | settled hgone hworker hhandler hshown hsent =>
      cases hstep with
      | lock | unlock =>
          exact .settled hgone (List.forall_mem_cons.1 hworker).2 hhandler hshown hsent
      | act hfree hends =>
          obtain ⟨hc, hrest⟩ := List.forall_mem_cons.1 hworker
          have hnext := List.forall_mem_append.2 ⟨spares_next hd hc hgone hends, hrest⟩
          exact .of_spares hd hgone hc hends hnext hhandler hshown hsent
      | refuse hends =>
          obtain ⟨hc, -⟩ := List.forall_mem_cons.1 hworker
          exact .of_spares hd hgone hc hends (by simp [Thread.todo]) hhandler hshown hsent

/-- A document that the handler forgets is going to be cleared. If it is being compiled meanwhile, the
handler waits for that. -/
theorem Phase.of_forgotten {uri : String} (hgone : Gone e u q) (ht : WorkerAt holder t)
    (hcs : Disciplined e.disk.workingPath u (held holder) (.forget uri :: cs))
    {next : List Command} (hends : Ends ((Command.forget uri).act e) p (.ok next) q)
    (hthere : u ∈ p.documents.sources.keys) :
    Phase e u removing ⟨q, holder, t, .busy (next ++ cs)⟩ := by
  obtain ⟨y, hforget, hnext⟩ := ends_bind_pure_iff.1 hends
  obtain ⟨a, rfl, rfl⟩ := map_eq_ok_iff.1 hnext.symm
  rcases forget_cases hforget with ⟨r, -, hr, -⟩ | ⟨key, hkey, -, rfl⟩
  · simp at hr
  obtain rfl : key = u := by
    by_contra hne
    refine hgone.away ?_
    change u ∈ (p.documents.sources.erase key).keys
    rw [Keyed.keys_erase]
    exact List.mem_filter.2 ⟨hthere, by simpa using Ne.symm hne⟩
  generalize hheld : held holder = b at hcs
  cases hcs with
  | plain hc => simpa [Command.isPlain, Command.isInner] using hc.isPlain
  | forget hlock hpost htame h =>
      have hspares : ∀ c ∈ cs, c.Spares e.disk.workingPath key :=
        fun c hc => spares_of_tame (htame key hkey c hc)
      by_cases hworker : holder = some .worker
      · -- The handler forgot the document without the lock, so it takes the lock next.
        subst hworker
        rcases hlock with rfl | ⟨ds, rfl⟩
        · simp [held] at hheld
        · refine .racing hgone ⟨uri, hkey, ?_⟩ (List.forall_mem_cons.1 hspares).2
          simpa using hpost
      · exact .of_owes hgone (ht.spares hworker _ _) hspares ⟨uri, hkey, hpost⟩

/-- A document that is not found again is going to be cleared. -/
theorem Phase.of_replaced {sources libraries : List Source} (hd : e.disk.Sane)
    (hp : Grounded e u p) (hgone : Gone e u q) (ht : WorkerAt holder t)
    (hcs : Disciplined e.disk.workingPath u (held holder) (.replace sources libraries :: cs))
    {next : List Command}
    (hends : Ends ((Command.replace sources libraries).act e) p (.ok next) q)
    (hthere : u ∈ p.documents.sources.keys) :
    Phase e u removing ⟨q, holder, t, .busy (next ++ cs)⟩ := by
  obtain ⟨rfl, ⟨r, -, hr⟩ | ⟨vanished, hvanished, hnext⟩⟩ := replace_cases hends
  · simp at hr
  obtain rfl := Except.ok.inj hnext
  generalize hheld : held holder = b at hcs
  cases hcs with
  | plain hc => simpa [Command.isPlain, Command.isInner] using hc.isPlain
  | replace hfit htame h =>
      have hworker : holder ≠ some .worker := by
        rintro rfl
        simp [held] at hheld
      have hfound : ∀ s ∈ sources, s.Canonical e.disk.workingPath :=
        fun s hs => ⟨(hfit.1 s hs).named, (hfit.1 s hs).normal⟩
      have hmem : ∀ key, key ∈ vanished ↔ key ∈ p.documents.sources.keys ∧
          key ∉ (p.documents.replaceAll e.disk.workingPath sources).1.sources.keys :=
        fun key => Documents.mem_vanished hd hfound hvanished
      have howes : Command.post (.retract u) ∈ (vanished.mergeSort fun a b => !(b < a)).map
          fun uri => Command.post (.retract uri) :=
        List.mem_map_of_mem (List.mem_mergeSort.2 ((hmem u).2 ⟨hthere, hgone.away⟩))
      have hspares : ∀ c ∈ (vanished.mergeSort fun a b => !(b < a)).map
          fun uri => Command.post (.retract uri), c.Spares e.disk.workingPath u := by
        intro c hc
        obtain ⟨uri, huri, rfl⟩ := List.mem_map.1 hc
        have hkey := ((hmem uri).1 (List.mem_mergeSort.1 huri)).1
        exact ⟨uri, hp.tidy.orderly.canonicalUri_key hd hkey⟩
      refine .of_owes hgone (ht.spares hworker _ _) ?_
        ⟨u, hp.tidy.orderly.canonicalUri_key hd hthere,
          List.mem_append_left _ (List.mem_cons_of_mem _ howes)⟩
      exact List.forall_mem_append.2 ⟨List.forall_mem_cons.2 ⟨hfit.2, hspares⟩,
        fun c hc => spares_of_tame (htame c hc)⟩

/-- A document that the handler takes out is going to be cleared. -/
theorem Phase.of_dropped (hd : disk.Sane) (hp : Grounded ⟨disk, .standard⟩ u p)
    (ht : WorkerAt holder t) (hcs : Disciplined disk.workingPath u (held holder) (c :: cs))
    (hfree : c.isLocking = false) {next : List Command}
    (hends : Ends (c.act ⟨disk, .standard⟩) p (.ok next) q)
    (hthere : u ∈ p.documents.sources.keys) (haway : u ∉ q.documents.sources.keys) :
    Phase ⟨disk, .standard⟩ u removing ⟨q, holder, t, .busy (next ++ cs)⟩ := by
  have hgone : Gone ⟨disk, .standard⟩ u q :=
    ⟨(grounded_act hd hcs.fit).related hends hp, haway⟩
  by_cases hforgets : ∃ uri, c = .forget uri
  · obtain ⟨uri, rfl⟩ := hforgets
    exact .of_forgotten hgone ht hcs hends hthere
  by_cases hreplaces : ∃ ss ls, c = .replace ss ls
  · obtain ⟨sources, libraries, rfl⟩ := hreplaces
    exact .of_replaced hd hp hgone ht hcs hends hthere
  have hkeeps := (keeps_act (e := ⟨disk, .standard⟩) (u := u) (not_exists.1 hforgets)
    fun ss ls heq => hreplaces ⟨ss, ls, heq⟩).related hends hthere
  exact absurd hkeeps haway

/-- Nothing is taken out by a command that is refused. -/
theorem there_of_refused (hd : e.disk.Sane) (hcs : Disciplined e.disk.workingPath u (held holder)
    (c :: cs)) {r : Refusal} (hends : Ends (c.act e) p (.error r) q)
    (hthere : u ∈ p.documents.sources.keys) : u ∈ q.documents.sources.keys := by
  by_cases hforgets : ∃ uri, c = .forget uri
  · obtain ⟨uri, rfl⟩ := hforgets
    obtain ⟨y, hforget, hy⟩ := ends_bind_pure_iff.1 hends
    obtain rfl := map_eq_error_iff.1 hy.symm
    rcases forget_cases hforget with ⟨-, -, -, rfl⟩ | ⟨key, -, hx, -⟩
    · exact hthere
    · simp at hx
  by_cases hreplaces : ∃ ss ls, c = .replace ss ls
  · obtain ⟨sources, libraries, rfl⟩ := hreplaces
    have hfound : ∀ s ∈ sources, s.Canonical e.disk.workingPath :=
      fun s hs => ⟨(hcs.fit.1 s hs).named, (hcs.fit.1 s hs).normal⟩
    obtain ⟨-, ⟨r', hr', -⟩ | ⟨vanished, -, hx⟩⟩ := replace_cases hends
    · simp [Documents.vanished_replaceAll hd p.documents hfound] at hr'
    · simp at hx
  exact (keeps_act (not_exists.1 hforgets)
    fun ss ls heq => hreplaces ⟨ss, ls, heq⟩).related hends hthere

/-- A step of the handler does so as well. -/
theorem Phase.handler (hd : disk.Sane) (hp : Grounded ⟨disk, .standard⟩ u p)
    (hother : WorkerAt holder other)
    (ht : HandlerAt disk.workingPath u holder t) (hlast : removing = false → ShowsLast t.todo)
    (hstep : Scene.Step ⟨disk, .standard⟩ .handler ⟨p, holder, t⟩ ⟨q, holder', t'⟩)
    (h : Phase ⟨disk, .standard⟩ u removing ⟨p, holder, other, t⟩) :
    Phase ⟨disk, .standard⟩ u removing ⟨q, holder', other, t'⟩ := by
  cases hstep with
  | refuse hends =>
      cases h with
      | misplaced _ h => simp at h
      | there h => exact .there (there_of_refused hd ht.disciplined hends h)
      | racing => simpa [Command.isLocking] using isLocking_of_refused hends
      | settled hgone hworker hhandler hshown hsent =>
          obtain ⟨hc, -⟩ := List.forall_mem_cons.1 hhandler
          obtain ⟨⟨f, rfl⟩, call, rfl, hcall⟩ := place_of_refused hd hc hgone.tidy hends
          cases removing with
          | true => exact .misplaced rfl rfl
          | false =>
              -- Nothing was going to be cleared any more, so all is cleared.
              have hnothing := (hlast rfl).not_clears hcall
              refine .of_spares hd hgone hc hends hworker (by simp [Thread.todo]) ?_ ?_
              · exact fun hmem => absurd (hshown hmem) (not_owes hnothing)
              · refine fun hpresent => .inl ((hsent hpresent).resolve_right ?_)
                exact not_or.2 ⟨not_owes hnothing, not_mem_send hnothing _⟩
  | lock | unlock =>
      cases h with
      | misplaced _ h => simp at h
      | there h => exact .there h
      | settled hgone hworker hhandler hshown hsent =>
          refine .settled hgone hworker (List.forall_mem_cons.1 hhandler).2 ?_ ?_
          · exact fun hmem => (hshown hmem).of_cons.resolve_left (by simp)
          · refine fun hpresent => (hsent hpresent).imp_right ?_
            exact .imp (fun howes => howes.of_cons.resolve_left (by simp)) fun hsend =>
              (List.mem_cons.1 hsend).resolve_left (by simp)
  | act hfree hends =>
      cases h with
      | misplaced _ h => simp at h
      | there h =>
          by_cases haway : u ∈ q.documents.sources.keys
          · exact .there haway
          · exact .of_dropped hd hp hother ht.disciplined hfree hends h haway
      | racing => simp [Command.isLocking] at hfree
      | settled hgone hworker hhandler hshown hsent =>
          obtain ⟨hc, hrest⟩ := List.forall_mem_cons.1 hhandler
          have hfades := fades_act hd hc hends
          have hclient := (client_act _).related hends
          refine .settled (gone_act hd hc hgone hends) hworker
            (List.forall_mem_append.2 ⟨spares_next hd hc hgone hends, hrest⟩) ?_ ?_
          · intro hmem
            -- The command clears the diagnostics, or one that comes later does.
            rcases (hshown (hfades.shown hmem)).of_cons with ⟨uri, huri, rfl⟩ | howes
            · exact absurd hmem (cleared_of_retract huri hends).1
            · exact howes.append _
          · intro hpresent
            rcases hsent (hclient ▸ hpresent) with hlast | howes | hsend
            · exact .inl (hfades.lastSent hlast)
            · rcases howes.of_cons with ⟨uri, huri, rfl⟩ | howes
              · have hsend := (cleared_of_retract huri hends).2
                exact .inr (.inr (List.mem_append_left _ hsend))
              · exact .inr (.inl (howes.append _))
            · rcases List.mem_cons.1 hsend with rfl | hsend
              · exact .inl (lastSent_of_send (hclient ▸ hpresent) hends)
              · exact .inr (.inr (List.mem_append_right _ hsend))

/-- A step of the worker leaves the project grounded. -/
theorem grounded_of_worker (hd : e.disk.Sane) (hp : Grounded e u p) (ht : WorkerAt holder t)
    (hstep : Scene.Step e .worker ⟨p, holder, t⟩ ⟨q, holder', t'⟩) : Grounded e u q := by
  cases hstep with
  | lock | unlock => exact hp
  | act hfree hends =>
      exact (grounded_act hd (plain_of_inner (ht.isInner hfree)).fit).related hends hp
  | refuse hends =>
      have hinner := ht.isInner (isLocking_of_refused hends)
      exact (grounded_act hd (plain_of_inner hinner).fit).related hends hp

/-- So does a step of the handler. -/
theorem grounded_of_handler (hd : e.disk.Sane) (hp : Grounded e u p)
    (ht : HandlerAt e.disk.workingPath u holder t)
    (hstep : Scene.Step e .handler ⟨p, holder, t⟩ ⟨q, holder', t'⟩) : Grounded e u q := by
  cases hstep with
  | lock | unlock => exact hp
  | act _ hends | refuse hends => exact (grounded_act hd ht.disciplined.fit).related hends hp

/-- Every step keeps what holds between the steps. -/
theorem Step.sound {m m' : Meeting} (hd : disk.Sane) (hm : Sound ⟨disk, .standard⟩ u removing m)
    (h : Step ⟨disk, .standard⟩ m m') : Sound ⟨disk, .standard⟩ u removing m' := by
  obtain ⟨hp, hworker, hhandler, hlast, hphase⟩ := hm
  cases h with
  | worker other h =>
      exact ⟨grounded_of_worker hd hp hworker h, hworker.step h,
        hhandler.of_other (h.holder_iff (by simp)), hlast, hphase.worker hd hworker h⟩
  | handler other h =>
      exact ⟨grounded_of_handler hd hp hhandler h, hworker.of_other (h.holder_iff (by simp)),
        hhandler.step hp.tidy h, fun hremoving => (hlast hremoving).step h,
        hphase.handler hd hp hworker hhandler hlast h⟩

/-- Whole runs keep it, too. -/
theorem Run.sound {m m' : Meeting} (hd : disk.Sane) (hm : Sound ⟨disk, .standard⟩ u removing m)
    (h : Run ⟨disk, .standard⟩ m m') : Sound ⟨disk, .standard⟩ u removing m' := by
  induction h with
  | refl => exact hm
  | tail _ hstep ih => exact hstep.sound hd ih

/-- **The threads do not block each other.** As long as one of them has something to do, one of them
can go on. -/
theorem Sound.progress {m : Meeting} (hm : Sound e u removing m) :
    (∃ m', Step e m m') ∨ m.worker.todo = [] ∧ m.handler.todo = [] := by
  obtain ⟨p, holder, worker, handler⟩ := m
  obtain ⟨-, hworker, hhandler, -, -⟩ := hm
  by_cases hlock : holder = some .worker
  · rcases hworker.goes_on (by simp [hlock]) p with ⟨q, holder', t', hstep⟩ | ⟨-, hfree⟩
    · exact .inl ⟨_, .worker handler hstep⟩
    · exact absurd hlock hfree
  · rcases hhandler.goes_on hlock p with ⟨q, holder', t', hstep⟩ | ⟨hnothing, hfree⟩
    · exact .inl ⟨_, .handler worker hstep⟩
    rcases hworker.goes_on hfree p with ⟨q, holder', t', hstep⟩ | ⟨hnothing', -⟩
    · exact .inl ⟨_, .worker handler hstep⟩
    · exact .inr ⟨hnothing', hnothing⟩

/-- A document with a syntax error that waits for being compiled. -/
def edited : Project :=
  ((Operation.update "file:///a.npl" "use" false).act Board.desk (.start (.start .plain 30 false))).2

/-- The worker takes the lock and reads the documents. Then the handler forgets the document. The
worker shows its diagnostics and gives the lock back, and the handler goes on. -/
def overtaken : List Party :=
  [.worker, .worker, .worker, .handler] ++ List.replicate 8 .worker ++ List.replicate 7 .handler

end Meeting

end Npl.Project
