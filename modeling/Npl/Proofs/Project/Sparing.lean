import Npl.Proofs.Project.Command
import Npl.Proofs.Project.Effect
import Npl.Proofs.Project.History
import Npl.Proofs.Project.Outcome

/-!
# Commands that leave a document alone

Once a document has gone, commands matter by what they can still do to its diagnostics. Most only
take them away. A report shows diagnostics for the documents that it is about, and a fault for the
source that it lies in, which is a document or a library. So if there is no document for a URI and no
library lies there, all that a compilation starts then leaves the URI alone.

None of these commands is refused, but for one reason: a message may have no position in the
protocol, since a document has more characters than the protocol can count.

## Main definitions

* `Project.Command.Parts` — what a command does to the documents, in terms of a relation.
* `Project.Grounded`, `Project.Gone` — no library lies where a URI leads, and no document either.
* `Project.Command.Spares` — commands that leave a URI alone.
* `Project.Fades` — what is neither shown nor sent diagnostics stays so.

## Main results

* `Project.fades_act`, `Project.spares_next` — commands that leave a URI alone show no diagnostics for
  it, and neither do those that come next.
* `Project.place_of_refused` — why such a command is refused.
-/

namespace Npl

/-! ### The last list for a URI -/

/-- The last list of diagnostics that the editor was sent for a URI, if it was sent one. -/
def Connection.lastSent? (c : Connection) (uri : String) : Option (List Diagnostic) :=
  ((c.notices.filter (·.1 = uri)).getLast?).map Prod.snd

/-- A path without null characters that does not lead where a URI does. -/
structure Path.Apart (p wd : Path) (u : String) : Prop where
  nullFree : p.NullFree
  ne : p.toUri wd ≠ u

namespace Project

open Npl.Project.Action

variable {e : Surroundings} {p q : Project} {c : Command} {u : String}

/-! ### What commands do -/

/-- What a command does respects a relation. -/
structure Command.Parts (e : Surroundings) (R : Project → Project → Prop) (c : Command) : Prop where
  quiet : ∀ p q : Project, q.documents = p.documents → q.workspace = p.workspace →
    q.libraries = p.libraries →
    q.display.connection.client = p.display.connection.client → R p q
  strike : ∀ stamps p, R p { p with documents := p.documents.strikeUnchanged stamps }
  edit : ∀ uri content, c = .edit uri content → ∀ p,
    R p { p with documents := (p.documents.update e.disk.workingPath uri content).1 }
  forget : ∀ uri, c = .forget uri → Respects R (Project.forget e uri)
  rescope : ∀ roots, c = .rescope roots → ∀ p : Project, R p { p with workspace := ⟨roots⟩ }
  replace : ∀ sources libraries, c = .replace sources libraries → ∀ p,
    R p { p with documents := (p.documents.replaceAll e.disk.workingPath sources).1 }
  equip : ∀ libraries, c = .equip libraries → ∀ p : Project, R p { p with libraries }

/-- A change of the board is refused, or the lists and records that belong to it come next. -/
theorem post_cases {call : Board.Call} {x : Except Refusal (List Command)}
    (h : Ends ((Command.post call).act e) p x q) :
    (∃ r, call.post e.disk.workingPath p.display.board = .error r ∧ x = .error r ∧ q = p) ∨
      ∃ board notices records,
        call.post e.disk.workingPath p.display.board = .ok (board, notices, records) ∧
          x = .ok (notices.map .send ++ records.map .write) ∧
          q = { p with display.board := board } := by
  unfold Command.act at h
  rw [ends_get_bind_iff, ends_answer_bind_iff] at h
  rcases h with ⟨r, hr, hx, hq⟩ | ⟨⟨board, notices, records⟩, hpost, h⟩
  · exact .inl ⟨r, hr, hx, hq⟩
  · rw [ends_set_bind_iff] at h
    obtain ⟨hx, hq⟩ := ends_pure_iff.1 h
    exact .inr ⟨board, notices, records, hpost, hx, hq⟩

/-- All documents are replaced, even if what vanished cannot be told. -/
theorem replace_cases {sources libraries : List Source} {x : Except Refusal (List Command)}
    (h : Ends ((Command.replace sources libraries).act e) p x q) :
    q = { p with documents := (p.documents.replaceAll e.disk.workingPath sources).1 } ∧
      ((∃ r, (p.documents.replaceAll e.disk.workingPath sources).2 = .error r ∧
          x = .error (.uri r)) ∨
        ∃ vanished, (p.documents.replaceAll e.disk.workingPath sources).2 = .ok vanished ∧
          x = .ok (.equip libraries ::
            (vanished.mergeSort fun a b => !(b < a)).map fun uri => .post (.retract uri))) := by
  unfold Command.act at h
  rw [ends_get_bind_iff, ends_set_bind_iff, ends_answer_bind_iff] at h
  rcases h with ⟨r, hr, rfl, rfl⟩ | ⟨vanished, hvanished, h⟩
  · obtain ⟨f, hf, rfl⟩ := mapError_eq_error_iff.1 hr
    exact ⟨rfl, .inl ⟨f, hf, rfl⟩⟩
  · obtain ⟨rfl, rfl⟩ := ends_pure_iff.1 h
    exact ⟨rfl, .inr ⟨vanished, mapError_eq_ok_iff.1 hvanished, rfl⟩⟩

theorem Command.Parts.respects {R : Project → Project → Prop} [IsPreorder Project R]
    (h : c.Parts e R) : Respects R (c.act e) := by
  have hmute : ∀ {p q}, Mute p q → R p q := fun hmute =>
    h.quiet _ _ (by rw [hmute.same]) (by rw [hmute.same]) (by rw [hmute.same]) hmute.client
  have hlog : ∀ r, Respects R (log r) := fun r _ _ _ hends => hmute ((mute_log r).related hends)
  cases c with
  | lock | unlock => exact .pure _
  | write r => exact .bind (hlog r) fun _ => .pure _
  | post call =>
      intro p x q hends
      rcases post_cases hends with ⟨-, -, -, rfl⟩ | ⟨board, notices, records, -, -, rfl⟩
      · exact refl_of R _
      · exact h.quiet _ _ rfl rfl rfl rfl
  | send notice =>
      refine .bind (.modifies fun p => ?_) fun _ => .pure _
      exact h.quiet _ _ rfl rfl rfl (Display.client_send _ _)
  | note => exact .bind .get fun _ => .pure _
  | read stamps => exact .bind .get fun _ => .bind (.answer _) fun _ => .pure _
  | compile stamps documents libraries =>
      exact .bind (fun _ _ _ hends => hmute ((mute_runCompiler _).related hends)) fun _ => .pure _
  | judge message => exact .bind .get fun _ => .bind (.answer _) fun _ => .pure _
  | store report => exact .bind (.modifies fun p => h.quiet _ _ rfl rfl rfl rfl) fun _ => .pure _
  | strike stamps => exact .bind (.modifies (h.strike stamps)) fun _ => .pure _
  | edit uri content => exact .bind (.modifies (h.edit uri content rfl)) fun _ => .pure _
  | forget uri => exact .bind (h.forget uri rfl) fun _ => .pure _
  | rescope roots => exact .bind (.modifies (h.rescope roots rfl)) fun _ => .pure _
  | replace sources libraries =>
      intro p x q hends
      obtain ⟨rfl, -⟩ := replace_cases hends
      exact h.replace sources libraries rfl p
  | equip libraries => exact .bind (.modifies (h.equip libraries rfl)) fun _ => .pure _
  | enter uri content path compileNow => exact .bind .get fun _ => .bind (.answer _) fun _ => .pure _
  | sift => exact .bind .get fun _ => .pure _
  | expel uri => exact .bind .get fun _ => .bind (.answer _) fun _ => .pure _
  | leave s => exact .bind .get fun _ => .bind (.answer _) fun _ => .pure _
  | refuse r => exact .answer _

/-- A command that asks something leaves the project as it is. -/
theorem ask_cases {α : Type} {f : Project → Except Refusal α} {g : Project → α → List Command}
    (hact : c.act e = get >>= fun p => answer (f p) >>= fun y => pure (g p y))
    {x : Except Refusal (List Command)} (h : Ends (c.act e) p x q) :
    q = p ∧ ((∃ r, f p = .error r ∧ x = .error r) ∨ ∃ a, f p = .ok a ∧ x = .ok (g p a)) := by
  rw [hact, ends_get_bind_iff, ends_answer_bind_iff] at h
  rcases h with ⟨r, hr, hx, hq⟩ | ⟨a, ha, h⟩
  · exact ⟨hq, .inl ⟨r, hr, hx⟩⟩
  · obtain ⟨hx, hq⟩ := ends_pure_iff.1 h
    exact ⟨hq, .inr ⟨a, ha, hx⟩⟩

/-- The compiler runs, and what it said comes next. -/
theorem compile_cases {stamps : Keyed Nat} {documents libraries : List Source}
    {x : Except Refusal (List Command)}
    (h : Ends ((Command.compile stamps documents libraries).act e) p x q) :
    Mute p q ∧ x = .ok (Command.taking stamps documents
      (e.compiler (documents ++ libraries)).result) := by
  rcases ends_bind_iff.1 h with ⟨r, hr, -⟩ | ⟨result, mid, hrun, h⟩
  · exact absurd (ends_runCompiler hr).1 (by simp)
  · obtain ⟨rfl, rfl⟩ := ends_pure_iff.1 h
    refine ⟨(mute_runCompiler _).related hrun, ?_⟩
    rw [Except.ok.inj (ends_runCompiler hrun).1]

/-! ### Documents and libraries -/

/-- The project is tidy, and no library lies where the URI leads. -/
structure Grounded (e : Surroundings) (u : String) (p : Project) : Prop where
  tidy : p.Tidy e.disk
  bare : ∀ s ∈ p.libraries, s.location.Apart e.disk.workingPath u

/-- Being grounded afterwards if one was before. -/
instance isPreorder_grounded (e : Surroundings) (u : String) :
    IsPreorder Project fun p q => Grounded e u p → Grounded e u q where
  refl _ := id
  trans _ _ _ h h' := h' ∘ h

/-- A command that brings no null characters in, nor a library where the URI leads. -/
def Command.Fit (wd : Path) (u : String) : Command → Prop
  | edit uri _ => NullFreeUri uri
  | rescope roots => ∀ root ∈ roots, root.NullFree
  | replace sources libraries =>
    (∀ s ∈ sources, s.Placed wd) ∧ ∀ s ∈ libraries, s.location.Apart wd u
  | equip libraries => ∀ s ∈ libraries, s.location.Apart wd u
  | lock | unlock | write _ | post _ | send _ | note | read _ | compile .. | judge _ | store _
  | strike _ | forget _ | enter .. | expel _ | sift | leave _ | refuse _ => True

theorem grounded_act (hd : e.disk.Sane) (hc : c.Fit e.disk.workingPath u) :
    Respects (fun p q => Grounded e u p → Grounded e u q) (c.act e) := by
  refine Command.Parts.respects ⟨?_, ?_, ?_, ?_, ?_, ?_, ?_⟩
  · intro p q hdocuments hworkspace hlibraries _ hp
    exact ⟨hp.tidy.of_same hdocuments hworkspace, hlibraries ▸ hp.bare⟩
  · intro stamps p hp
    have hkept := hp.tidy.kept.of_dirty (Documents.foldl_strikeStamp_sublist stamps.entries _)
    exact ⟨⟨hkept, hp.tidy.placed, hp.tidy.roots⟩, hp.bare⟩
  · rintro uri content rfl p hp
    refine ⟨?_, hp.bare⟩
    rcases p.documents.update_cases e.disk.workingPath uri content with heq | ⟨path, hpath, hsource, -⟩
    · exact hp.tidy.of_same (by rw [heq]) rfl
    · exact (pending_of_update hp.tidy hpath hsource (hc path hpath) rfl).1
  · rintro uri rfl p x q h hp
    rcases forget_cases h with ⟨-, -, -, rfl⟩ | ⟨key, -, rfl, rfl⟩
    · exact hp
    · exact ⟨(stamped_of_forget hp.tidy h).1, hp.bare⟩
  · rintro roots rfl p hp
    exact ⟨⟨hp.tidy.kept, hp.tidy.placed, hc⟩, hp.bare⟩
  · rintro sources libraries rfl p hp
    have hplaced := Documents.Placed.putAll hd
      (d := { p.documents with sources := .empty, dirty := .empty })
      (by simp [Documents.Placed, Keyed.empty]) hc.1
    exact ⟨⟨(Documents.kept_cleared _).putAll _ _, hplaced, hp.tidy.roots⟩, hp.bare⟩
  · rintro libraries rfl p hp
    exact ⟨hp.tidy.of_same rfl rfl, hc⟩

/-! ### Which documents there are -/

/-- There being a document afterwards if there was one before. -/
instance isPreorder_keeps (u : String) : IsPreorder Project fun p q =>
    u ∈ p.documents.sources.keys → u ∈ q.documents.sources.keys where
  refl _ := id
  trans _ _ _ h h' := h' ∘ h

/-- Only forgetting and replacing documents takes one out. -/
theorem keeps_act (hforget : ∀ uri, c ≠ .forget uri) (hreplace : ∀ ss ls, c ≠ .replace ss ls) :
    Respects (fun p q => u ∈ p.documents.sources.keys → u ∈ q.documents.sources.keys)
      (c.act e) := by
  refine Command.Parts.respects ⟨?_, ?_, ?_, ?_, ?_, ?_, ?_⟩
  · intro p q hdocuments _ _ _ hp
    rwa [hdocuments]
  · exact fun _ _ hp => hp
  · rintro uri content - p hp
    rcases p.documents.update_cases e.disk.workingPath uri content with heq | ⟨path, -, -, heq⟩
    · rwa [heq]
    · rw [heq]
      change u ∈ (p.documents.sources.set _ _).keys
      rw [Keyed.keys_set]
      split
      · exact hp
      · exact List.mem_append_left _ hp
  · exact fun uri heq => absurd heq (hforget uri)
  · exact fun _ _ _ hp => hp
  · exact fun ss ls heq => absurd heq (hreplace ss ls)
  · exact fun _ _ _ hp => hp

/-- There being no document afterwards if there was none before. -/
instance isPreorder_lacks (u : String) : IsPreorder Project fun p q =>
    u ∉ p.documents.sources.keys → u ∉ q.documents.sources.keys where
  refl _ := id
  trans _ _ _ h h' := h' ∘ h

/-- Only taking over texts and replacing documents brings one in. -/
theorem lacks_act (hedit : ∀ uri content, c ≠ .edit uri content)
    (hreplace : ∀ ss ls, c ≠ .replace ss ls) :
    Respects (fun p q => u ∉ p.documents.sources.keys → u ∉ q.documents.sources.keys)
      (c.act e) := by
  refine Command.Parts.respects ⟨?_, ?_, ?_, ?_, ?_, ?_, ?_⟩
  · intro p q hdocuments _ _ _ hp
    rwa [hdocuments]
  · exact fun _ _ hp => hp
  · exact fun uri content heq => absurd heq (hedit uri content)
  · rintro uri - p x q h hp
    rcases forget_cases h with ⟨-, -, -, rfl⟩ | ⟨key, -, -, rfl⟩
    · exact hp
    · change u ∉ (p.documents.sources.erase key).keys
      rw [Keyed.keys_erase]
      exact fun hmem => hp (List.mem_filter.1 hmem).1
  · exact fun _ _ _ hp => hp
  · exact fun ss ls heq => absurd heq (hreplace ss ls)
  · exact fun _ _ _ hp => hp

/-- Having the same client. -/
instance isPreorder_client : IsPreorder Project fun p q =>
    q.display.connection.client = p.display.connection.client where
  refl _ := rfl
  trans _ _ _ h h' := h'.trans h

theorem client_act (c : Command) : Respects
    (fun p q => q.display.connection.client = p.display.connection.client) (c.act e) := by
  refine Command.Parts.respects ⟨fun _ _ _ _ _ hclient => hclient, fun _ _ => rfl,
    fun _ _ _ _ => rfl, ?_, fun _ _ _ => rfl, fun _ _ _ _ => rfl, fun _ _ _ => rfl⟩
  rintro uri - p x q h
  rcases forget_cases h with ⟨-, -, -, rfl⟩ | ⟨-, -, -, rfl⟩ <;> rfl

/-! ### Commands that leave a URI alone -/

/-- A command that neither shows diagnostics for the URI nor brings a document or a library there,
and that is about documents with URIs and paths that can be told. -/
def Command.Spares (wd : Path) (u : String) : Command → Prop
  | lock | unlock | write _ | note | read _ | store _ | strike _ | sift => True
  | post (.report _ documents) => ∀ s ∈ documents, s.Placed wd ∧ s.uri ≠ u
  | post (.fault message) => message.location.Apart wd u
  | post (.retract uri) | forget uri => ∃ key, canonicalUri wd uri = .ok key
  | send notice => notice.1 = u → notice.2 = []
  | compile _ documents libraries =>
    (∀ s ∈ documents, s.Placed wd ∧ s.uri ≠ u) ∧ ∀ s ∈ libraries, s.location.Apart wd u
  | judge message => message.location.Apart wd u
  | leave s => s.Placed wd
  | equip libraries => ∀ s ∈ libraries, s.location.Apart wd u
  | edit .. | rescope _ | replace .. | enter .. | expel _ | refuse _ => False

/-- A placed source with another URI lies elsewhere. -/
theorem apart_of_placed {wd : Path} {s : Source} (h : s.Placed wd ∧ s.uri ≠ u) :
    s.location.Apart wd u :=
  ⟨h.1.nullFree, h.1.named ▸ h.2⟩

/-- There is no document for the URI, and no library lies there. -/
structure Gone (e : Surroundings) (u : String) (p : Project) : Prop extends Grounded e u p where
  away : u ∉ p.documents.sources.keys

theorem gone_act (hd : e.disk.Sane) (hc : c.Spares e.disk.workingPath u) (hp : Gone e u p)
    {x : Except Refusal (List Command)} (h : Ends (c.act e) p x q) : Gone e u q := by
  have hfit : c.Fit e.disk.workingPath u := by
    cases c with
    | edit | rescope | replace => exact hc.elim
    | equip => exact hc
    | _ => trivial
  refine ⟨(grounded_act hd hfit).related h hp.toGrounded, (lacks_act ?_ ?_).related h hp.away⟩
  · rintro uri content rfl
    exact hc
  · rintro ss ls rfl
    exact hc

/-- What is neither on the board nor sent diagnostics stays so. -/
structure Fades (u : String) (p q : Project) : Prop where
  shown : u ∈ q.display.board.shown.keys → u ∈ p.display.board.shown.keys
  sent : ∃ sent, q.display.connection.notices = p.display.connection.notices ++ sent ∧
    ∀ n ∈ sent, n.1 = u → n.2 = []

theorem Fades.of_same (hboard : q.display.board = p.display.board)
    (hnotices : q.display.connection.notices = p.display.connection.notices) : Fades u p q :=
  ⟨fun h => hboard ▸ h, [], by rw [hnotices, List.append_nil], by simp⟩

/-- A change of the board that spares a URI does not bring it onto the board, and sends it empty
lists at most. -/
theorem fades_of_post {disk : Disk} (hd : disk.Sane) {b b' : Board} {call : Board.Call}
    {notices : List Notice} {records : List LogRecord}
    (hc : (Command.post call).Spares disk.workingPath u)
    (h : call.post disk.workingPath b = .ok (b', notices, records)) :
    (u ∈ b'.shown.keys → u ∈ b.shown.keys) ∧ ∀ n ∈ notices, n.1 = u → n.2 = [] := by
  cases call with
  | report report documents =>
      obtain ⟨⟨board, current, stale⟩, hshow, hpure⟩ := bind_eq_ok_iff.1 h
      obtain ⟨rfl, hrest⟩ := Prod.mk.inj (pure_eq_ok_iff.1 hpure)
      obtain ⟨rfl, -⟩ := Prod.mk.inj hrest
      obtain ⟨located, -, hshow⟩ := bind_eq_ok_iff.1 hshow
      obtain ⟨keys, hkeys, hshow⟩ := bind_eq_ok_iff.1 hshow
      have hout : u ∉ keys := by
        rw [Board.mem_keysOf hkeys]
        rintro ⟨s, hs, hkey⟩
        exact (hc s hs).2 (Except.ok.inj (((hc s hs).1.canonical hd).symm.trans hkey))
      have hnone : u ∉ (Keyed.ofList (keys.map fun key => (key, located.filterMap fun x =>
          if x.1 = key then some x.2 else none))).keys := by
        rw [← Keyed.get?_eq_none_iff, Keyed.get?_ofList_map, if_neg hout]
      obtain ⟨rfl, hrest⟩ := Prod.mk.inj (pure_eq_ok_iff.1 hshow)
      obtain ⟨rfl, rfl⟩ := Prod.mk.inj hrest
      refine ⟨fun hmem => absurd hmem hnone, fun n hn hname => ?_⟩
      rcases List.mem_append.1 hn with hn | hn
      · exact absurd (hname ▸ List.mem_map_of_mem hn) hnone
      · obtain ⟨key, -, rfl⟩ := List.mem_map.1 hn
        rfl
  | fault message =>
      obtain ⟨⟨board, notice⟩, hshow, hpure⟩ := bind_eq_ok_iff.1 h
      obtain ⟨rfl, hrest⟩ := Prod.mk.inj (pure_eq_ok_iff.1 hpure)
      obtain ⟨rfl, -⟩ := Prod.mk.inj hrest
      obtain ⟨d, -, hshow⟩ := bind_eq_ok_iff.1 hshow
      obtain ⟨rfl, rfl⟩ := Prod.mk.inj (pure_eq_ok_iff.1 hshow)
      have hne : message.location.toUri disk.workingPath ≠ u := Path.Apart.ne hc
      refine ⟨fun hmem => ?_, ?_⟩
      · rw [Keyed.keys_set] at hmem
        split at hmem
        · exact hmem
        · simpa [hne.symm] using hmem
      · simp [hne]
  | retract uri =>
      obtain ⟨⟨board, notice⟩, hshow, hpure⟩ := bind_eq_ok_iff.1 h
      obtain ⟨rfl, hrest⟩ := Prod.mk.inj (pure_eq_ok_iff.1 hpure)
      obtain ⟨rfl, -⟩ := Prod.mk.inj hrest
      obtain ⟨key, -, hshow⟩ := bind_eq_ok_iff.1 hshow
      obtain ⟨rfl, rfl⟩ := Prod.mk.inj (pure_eq_ok_iff.1 hshow)
      refine ⟨fun hmem => ?_, by simp⟩
      rw [Keyed.keys_erase] at hmem
      exact (List.mem_filter.1 hmem).1

theorem fades_act (hd : e.disk.Sane) (hc : c.Spares e.disk.workingPath u)
    {x : Except Refusal (List Command)} (h : Ends (c.act e) p x q) : Fades u p q := by
  have hmute : ∀ {p q : Project}, Mute p q → Fades u p q := fun hmute =>
    .of_same (by rw [hmute.same]) hmute.notices
  cases c with
  | edit | rescope | replace | enter | expel | refuse => exact hc.elim
  | lock | unlock | note | sift | equip | store | strike =>
      obtain ⟨-, rfl⟩ := (ends_iff_of_eq rfl).1 h
      exact .of_same rfl rfl
  | read | judge | leave =>
      obtain ⟨rfl, -⟩ := ask_cases rfl h
      exact .of_same rfl rfl
  | write r =>
      obtain ⟨-, rfl⟩ := (ends_iff_of_eq rfl).1 h
      exact .of_same rfl (Connection.notices_log _ _)
  | compile => exact hmute (compile_cases h).1
  | forget uri =>
      obtain ⟨y, hforget, -⟩ := ends_bind_pure_iff.1 h
      rcases forget_cases hforget with ⟨-, -, -, rfl⟩ | ⟨-, -, -, rfl⟩
      · exact .of_same rfl rfl
      · exact .of_same rfl rfl
  | send notice =>
      obtain ⟨-, rfl⟩ := (ends_iff_of_eq rfl).1 h
      refine ⟨id, _, Display.notices_send _ _, fun n hn => ?_⟩
      split at hn
      · simp at hn
      · rw [List.mem_singleton.1 hn]
        exact hc
  | post call =>
      rcases post_cases h with ⟨-, -, -, rfl⟩ | ⟨board, notices, records, hpost, -, rfl⟩
      · exact .of_same rfl rfl
      · exact ⟨(fades_of_post hd hc hpost).1, [], by rw [List.append_nil], by simp⟩

/-- If there is no document for a URI, the documents and libraries that are compiled lie
elsewhere. -/
theorem Gone.spares_compile (hp : Gone e u p) (stamps : Keyed Nat) {documents : List Source}
    (hdocuments : p.candidates e = .ok documents) :
    (Command.compile stamps documents (p.librariesBeside documents)).Spares
      e.disk.workingPath u := by
  refine ⟨fun s hs => ?_, fun s hs => hp.bare s (List.mem_filter.1 hs).1⟩
  have hmem := mem_all_of_candidates hdocuments hs
  refine ⟨hp.tidy.placed_of_mem hmem, ?_⟩
  rintro rfl
  obtain ⟨entry, hentry, rfl⟩ := List.mem_map.1 hmem
  rw [hp.tidy.kept.named entry hentry] at hp
  exact hp.away (List.mem_map_of_mem hentry)

theorem Fades.lastSent (h : Fades u p q)
    (hp : p.display.connection.lastSent? u = some []) :
    q.display.connection.lastSent? u = some [] := by
  obtain ⟨sent, hsent, hempty⟩ := h.sent
  unfold Connection.lastSent? at hp ⊢
  rw [hsent, List.filter_append, List.getLast?_append, Option.map_or, hp]
  cases hlast : (sent.filter (·.1 = u)).getLast? with
  | none => rfl
  | some n =>
      obtain ⟨hmem, hname⟩ := List.mem_filter.1 (List.mem_of_getLast? hlast)
      simp [hempty n hmem (by simpa using hname)]

/-- What comes next spares the URI as well, as there is no document for it. -/
theorem spares_next {disk : Disk} (hd : disk.Sane) (hc : c.Spares disk.workingPath u)
    (hp : Gone ⟨disk, .standard⟩ u p) {next : List Command}
    (h : Ends (c.act ⟨disk, .standard⟩) p (.ok next) q) :
    ∀ c' ∈ next, c'.Spares disk.workingPath u := by
  cases c with
  | edit | rescope | replace | enter | expel | refuse => exact hc.elim
  | lock | unlock | write | send | equip | store | strike =>
      obtain ⟨hnext, -⟩ := (ends_iff_of_eq rfl).1 h
      simp [Except.ok.inj hnext]
  | note =>
      obtain ⟨hnext, -⟩ := (ends_iff_of_eq rfl).1 h
      rw [Except.ok.inj hnext]
      split <;> simp [Command.Spares]
  | sift =>
      obtain ⟨hnext, -⟩ := (ends_iff_of_eq rfl).1 h
      rw [Except.ok.inj hnext]
      intro c' hc'
      obtain ⟨s, hs, rfl⟩ := List.mem_map.1 hc'
      exact hp.tidy.placed_of_mem hs
  | forget uri =>
      obtain ⟨y, -, hnext⟩ := ends_bind_pure_iff.1 h
      obtain ⟨-, -, hnext⟩ := map_eq_ok_iff.1 hnext.symm
      simp [← hnext]
  | leave s =>
      obtain ⟨-, ⟨r, -, hr⟩ | ⟨inside, -, hnext⟩⟩ := ask_cases rfl h
      · simp at hr
      · rw [Except.ok.inj hnext]
        have hkey : ∃ key, canonicalUri disk.workingPath s.uri = .ok key :=
          ⟨s.uri, Source.Placed.canonical hd hc⟩
        split <;> simp [Command.Spares, hkey]
  | judge message =>
      obtain ⟨-, ⟨r, -, hr⟩ | ⟨inside, -, hnext⟩⟩ := ask_cases rfl h
      · simp at hr
      · rw [Except.ok.inj hnext]
        have hapart : message.location.Apart disk.workingPath u := hc
        split <;> simp [Command.Spares, hapart]
  | read stamps =>
      obtain ⟨-, ⟨r, -, hr⟩ | ⟨documents, hdocuments, hnext⟩⟩ := ask_cases rfl h
      · simp at hr
      · rw [Except.ok.inj hnext, Command.compiling]
        split
        · simp [Command.Spares]
        · have hspares := hp.spares_compile stamps hdocuments
          simpa [Command.Spares] using hspares
  | compile stamps documents libraries =>
      obtain ⟨-, hnext⟩ := compile_cases h
      have hresult : (Compiler.standard (documents ++ libraries)).result =
          .ok (compile (documents ++ libraries)) := rfl
      rw [Except.ok.inj hnext, hresult]
      cases houtcome : compile (documents ++ libraries) with
      | fault message =>
          -- A fault lies at one of the sources.
          have hmem : message ∈ (compile (documents ++ libraries)).messages := by
            rw [houtcome]
            exact List.mem_singleton_self message
          obtain ⟨s, hs, habout⟩ := Outcome.about_of_mem_messages hmem
          have hapart : message.location.Apart disk.workingPath u := by
            rw [habout.1]
            exact (List.mem_append.1 hs).elim (fun hs => apart_of_placed (hc.1 s hs)) (hc.2 s)
          simpa [Command.taking, Command.Spares] using hapart
      | finished report =>
          simpa [Command.taking, Command.Spares] using hc.1
  | post call =>
      rcases post_cases h with ⟨r, -, hr, -⟩ | ⟨board, notices, records, hpost, hnext, -⟩
      · simp at hr
      · rw [Except.ok.inj hnext]
        intro c' hc'
        rcases List.mem_append.1 hc' with hc' | hc'
        · obtain ⟨n, hn, rfl⟩ := List.mem_map.1 hc'
          exact (fades_of_post hd hc hpost).2 n hn
        · obtain ⟨r, -, rfl⟩ := List.mem_map.1 hc'
          trivial

/-- A change of the board that spares a URI is refused only because a message has no position in the
protocol. -/
theorem place_of_post {disk : Disk} (hd : disk.Sane) {b : Board} {call : Board.Call}
    (hc : (Command.post call).Spares disk.workingPath u) {r : Refusal}
    (h : call.post disk.workingPath b = .error r) :
    (∃ f, r = .place f) ∧ ∀ uri, call ≠ .retract uri := by
  cases call with
  | report report documents =>
      have hkeys := keysOf_eq fun s hs => (hc s hs).1.canonical hd
      rcases bind_eq_error_iff.1 h with hshow | ⟨shown, -, hpure⟩
      · obtain ⟨-, -, f, -, hr⟩ := Board.place_of_showReport hkeys hshow
        exact ⟨⟨f, hr⟩, by simp⟩
      · exact absurd hpure pure_ne_error
  | fault message =>
      rcases bind_eq_error_iff.1 h with hshow | ⟨shown, -, hpure⟩
      · obtain ⟨f, -, hr⟩ := Board.place_of_showFault hshow
        exact ⟨⟨f, hr⟩, by simp⟩
      · exact absurd hpure pure_ne_error
  | retract uri =>
      obtain ⟨key, hkey⟩ := hc
      rcases bind_eq_error_iff.1 h with hretract | ⟨shown, -, hpure⟩
      · rcases bind_eq_error_iff.1 hretract with hr | ⟨shown, -, hpure⟩
        · obtain ⟨r', hr', -⟩ := mapError_eq_error_iff.1 hr
          simp [hkey] at hr'
        · exact absurd hpure pure_ne_error
      · exact absurd hpure pure_ne_error

/-- A command that spares a URI is refused only because a message has no position in the protocol. It
is to show a report or a fault then. -/
theorem place_of_refused (hd : e.disk.Sane) (hc : c.Spares e.disk.workingPath u)
    (hp : p.Tidy e.disk) {r : Refusal} (h : Ends (c.act e) p (.error r) q) :
    (∃ f, r = .place f) ∧ ∃ call, c = .post call ∧ ∀ uri, call ≠ .retract uri := by
  cases c with
  | edit | rescope | replace | enter | expel | refuse => exact hc.elim
  | lock | unlock | write | send | note | sift | equip | store | strike =>
      exact absurd ((ends_iff_of_eq rfl).1 h).1 (by simp)
  | compile => exact absurd (compile_cases h).2 (by simp)
  | forget uri =>
      obtain ⟨key, hkey⟩ := hc
      obtain ⟨y, hforget, hy⟩ := ends_bind_pure_iff.1 h
      rcases forget_cases hforget with ⟨r', hr', -⟩ | ⟨key', -, rfl, -⟩
      · simp [hkey] at hr'
      · exact absurd (map_eq_error_iff.1 hy.symm) (by simp)
  | post call =>
      rcases post_cases h with ⟨r', hr', hx, -⟩ | ⟨board, notices, records, -, hx, -⟩
      · obtain rfl := Except.error.inj hx
        obtain ⟨hplace, hcall⟩ := place_of_post hd hc hr'
        exact ⟨hplace, call, rfl, hcall⟩
      · simp at hx
  | read stamps =>
      obtain ⟨-, ⟨r', hr', -⟩ | ⟨a, -, hx⟩⟩ := ask_cases rfl h
      · simp [hp.candidates hd] at hr'
      · simp at hx
  | judge message =>
      obtain ⟨inside, hinside⟩ := Workspace.exists_contains hd hp.roots (Path.Apart.nullFree hc)
      obtain ⟨-, ⟨r', hr', -⟩ | ⟨a, -, hx⟩⟩ := ask_cases rfl h
      · simp [hinside] at hr'
      · simp at hx
  | leave s =>
      obtain ⟨inside, hinside⟩ :=
        Workspace.exists_contains hd hp.roots (Source.Placed.nullFree hc)
      obtain ⟨-, ⟨r', hr', -⟩ | ⟨a, -, hx⟩⟩ := ask_cases rfl h
      · simp [hinside] at hr'
      · simp at hx

end Project

end Npl
