import Npl.Proofs.Display
import Npl.Proofs.Project.Current

/-!
# Publication of diagnostics

A project changes what the editor shows by reports, by faults, and by clearing documents. Whatever
is tried in whatever order, the last list that the editor was sent for a URI is what the board holds
for it. A change that is refused, because a message lies where the editor has no position or a URI
makes no sense, sends nothing and changes nothing.

A report about documents sends one list for each of them, with all messages located there, and one
empty list for each URI shown so far that belongs to none of them.

## Main definitions

* `Board.Call.act`, `Board.Call.run` — a change as an action on a project, and several in turn.
* `Board.Publishes` — the lists that a report sends.

## Main results

* `Board.publishes_of_showReport` — a report that is shown sends these lists.
* `Board.Call.sent_of_run` — the editor shows what the board holds after any changes.
-/

namespace Npl

open Project.Action (Ends)

/-! ### Messages at a URI -/

/-- The messages of a report that are located at a URI, warnings before errors. -/
def Report.messagesAt (report : Report) (wd : Path) (uri : String) : List Message :=
  (report.warnings ++ report.errors).filter fun m => m.location.toUri wd = uri

theorem Report.messages_eq (report : Report) :
    report.messages = report.warnings ++ report.errors := by
  cases report with
  | success warnings => exact (List.append_nil _).symm
  | failure errors warnings => rfl

namespace Board

variable {wd : Path} {b b' : Board} {report : Report} {documents : List Source}

/-- The diagnostics at a URI are those of the messages located there, in order. -/
theorem diagnosticsAt_of_locate {messages : List Message} {located : List (String × Diagnostic)}
    (h : locate wd messages = .ok located) (uri : String) :
    (messages.filter fun m => m.location.toUri wd = uri).map Message.toDiagnostic =
      (diagnosticsAt located uri).map .ok := by
  have hpairs := mapM_eq_ok_iff.1 h
  clear h
  induction messages generalizing located with
  | nil =>
      obtain rfl := List.map_eq_nil_iff.1 hpairs.symm
      rfl
  | cons m messages ih =>
      obtain ⟨pair, others, rfl, hpair, hothers⟩ := List.map_eq_cons_iff.1 hpairs.symm
      obtain ⟨d, hd, rfl⟩ := map_eq_ok_iff.1 hpair.symm
      have hdiagnostic : m.toDiagnostic = .ok d := mapError_eq_ok_iff.1 hd
      have htail := ih hothers.symm
      rw [diagnosticsAt] at htail ⊢
      by_cases hat : m.location.toUri wd = uri
      · simp [hat, hdiagnostic, htail]
      · simp [hat, htail]

/-! ### The lists of a report -/

/-- The lists that a report about documents sends: for each URI at most one; for the URI of each
document one with the diagnostics of all messages located there; for each URI shown before that is
not the URI of a document an empty one; and no others. -/
structure Publishes (wd : Path) (b : Board) (report : Report) (documents : List Source)
    (sent : List Notice) : Prop where
  once : (sent.map Prod.fst).Nodup
  current : ∀ s ∈ documents, ∃ uri diagnostics, canonicalUri wd s.uri = .ok uri ∧
    (uri, diagnostics) ∈ sent ∧
    (report.messagesAt wd uri).map Message.toDiagnostic = diagnostics.map .ok
  stale : ∀ uri ∈ b.shown.keys, (∀ s ∈ documents, canonicalUri wd s.uri ≠ .ok uri) →
    (uri, []) ∈ sent
  only : ∀ notice ∈ sent, (∃ s ∈ documents, canonicalUri wd s.uri = .ok notice.1) ∨
    notice.1 ∈ b.shown.keys

/-- The keys of documents are their canonical URIs. -/
theorem mem_keysOf {keys : List String} (h : keysOf wd documents = .ok keys) {uri : String} :
    uri ∈ keys ↔ ∃ s ∈ documents, canonicalUri wd s.uri = .ok uri := by
  have hmap := mapM_eq_ok_iff.1 h
  have hmem : uri ∈ keys ↔ (Except.ok uri : Except Refusal String) ∈ keys.map .ok := by simp
  rw [hmem, ← hmap, List.mem_map]
  simp only [mapError_eq_ok_iff]

/-- The URIs of documents that have keys are canonical. -/
theorem canonical_of_keysOf {keys : List String} (h : keysOf wd documents = .ok keys) {s : Source}
    (hs : s ∈ documents) : ∃ uri, canonicalUri wd s.uri = .ok uri := by
  have hmem := List.mem_map_of_mem (f := fun s => (canonicalUri wd s.uri).mapError Refusal.uri) hs
  rw [mapM_eq_ok_iff.1 h] at hmem
  obtain ⟨uri, -, heq⟩ := List.mem_map.1 hmem
  exact ⟨uri, mapError_eq_ok_iff.1 heq.symm⟩

/-- A report that is shown sends the lists that it should. -/
theorem publishes_of_showReport {current stale : List Notice} (hb : b.shown.keys.Nodup)
    (h : b.showReport wd report documents = .ok (b', current, stale)) :
    Publishes wd b report documents (current ++ stale) := by
  obtain ⟨located, hlocated, hrest⟩ := bind_eq_ok_iff.1 h
  obtain ⟨keys, hkeys, hpure⟩ := bind_eq_ok_iff.1 hrest
  obtain ⟨-, hnotices⟩ := Prod.mk.inj (pure_eq_ok_iff.1 hpure)
  obtain ⟨hcurrent, hstale⟩ := Prod.mk.inj hnotices
  generalize hnew : Keyed.ofList _ = new at hcurrent hstale
  have hnodup : new.keys.Nodup := hnew ▸ Keyed.nodup_keys_ofList _
  have hfound : ∀ uri, new.get? uri =
      if uri ∈ keys then some (diagnosticsAt located uri) else none := fun uri => by
    rw [← hnew]
    exact Keyed.get?_ofList_map (diagnosticsAt located) keys uri
  have hkey : ∀ uri, uri ∈ new.keys ↔ uri ∈ keys := fun uri => by
    rw [← Keyed.contains_iff, Keyed.contains, hfound]
    split <;> simp [*]
  subst hcurrent hstale
  have hsent : (List.map Prod.fst (new.entries ++ (b.shown.keys.filter fun key =>
      !new.contains key).map fun key => (key, []))) =
      new.keys ++ b.shown.keys.filter fun key => !new.contains key := by
    simp [Keyed.keys, Function.comp_def]
  refine ⟨?once, ?current, ?stale, ?only⟩
  case once =>
    rw [hsent, List.nodup_append]
    refine ⟨hnodup, hb.filter _, ?_⟩
    rintro uri hcurrent other hstale rfl
    have habsent := (List.mem_filter.1 hstale).2
    simp [Keyed.contains_iff.2 hcurrent] at habsent
  case current =>
    intro s hs
    obtain ⟨uri, hcanonical⟩ := canonical_of_keysOf hkeys hs
    have hmem : uri ∈ keys := (mem_keysOf hkeys).2 ⟨s, hs, hcanonical⟩
    refine ⟨uri, diagnosticsAt located uri, hcanonical, List.mem_append_left _ ?_, ?_⟩
    · rw [Keyed.mem_entries_iff hnodup, hfound, if_pos hmem]
    · rw [Report.messagesAt, ← report.messages_eq]
      exact diagnosticsAt_of_locate hlocated uri
  case stale =>
    intro uri hshown hnone
    have hnew : uri ∉ new.keys := fun hmem => by
      obtain ⟨s, hs, hcanonical⟩ := (mem_keysOf hkeys).1 ((hkey uri).1 hmem)
      exact hnone s hs hcanonical
    refine List.mem_append_right _ (List.mem_map.2 ⟨uri, List.mem_filter.2 ⟨hshown, ?_⟩, rfl⟩)
    rw [Bool.not_eq_true', ← Bool.not_eq_true, Keyed.contains_iff]
    exact hnew
  case only =>
    intro notice hmem
    rcases List.mem_append.1 hmem with hcurrent | hstale
    · have hmem : notice.1 ∈ new.keys := List.mem_map_of_mem hcurrent
      exact .inl ((mem_keysOf hkeys).1 ((hkey _).1 hmem))
    · obtain ⟨uri, huri, rfl⟩ := List.mem_map.1 hstale
      exact .inr (List.mem_filter.1 huri).1

/-! ### Any changes -/

/-- Whatever changes, the board holds each URI once. -/
theorem Call.nodup_of_apply {call : Call} {ns : List Notice} (hb : b.shown.keys.Nodup)
    (h : call.apply wd b = .ok (b', ns)) : b'.shown.keys.Nodup := by
  cases call with
  | report report documents =>
      obtain ⟨⟨b₁, current, stale⟩, hshow, heq⟩ := map_eq_ok_iff.1 h
      obtain ⟨rfl, -⟩ := Prod.mk.inj heq
      obtain ⟨located, -, hrest⟩ := bind_eq_ok_iff.1 hshow
      obtain ⟨keys, -, hpure⟩ := bind_eq_ok_iff.1 hrest
      obtain ⟨rfl, -⟩ := Prod.mk.inj (pure_eq_ok_iff.1 hpure)
      exact Keyed.nodup_keys_ofList _
  | fault message =>
      obtain ⟨⟨b₁, notice⟩, hshow, heq⟩ := map_eq_ok_iff.1 h
      obtain ⟨rfl, -⟩ := Prod.mk.inj heq
      obtain ⟨d, -, hpure⟩ := bind_eq_ok_iff.1 hshow
      obtain ⟨rfl, -⟩ := Prod.mk.inj (pure_eq_ok_iff.1 hpure)
      exact Keyed.nodup_keys_set hb _ _
  | retract uri =>
      obtain ⟨⟨b₁, notice⟩, hretract, heq⟩ := map_eq_ok_iff.1 h
      obtain ⟨rfl, -⟩ := Prod.mk.inj heq
      obtain ⟨key, -, hpure⟩ := bind_eq_ok_iff.1 hretract
      obtain ⟨rfl, -⟩ := Prod.mk.inj (pure_eq_ok_iff.1 hpure)
      exact Keyed.nodup_keys_erase hb _

variable {e : Surroundings} {p q : Project}

/-- Changes what the editor shows. -/
def Call.act (e : Surroundings) (call : Call) : Project.Action Unit :=
  Project.onDisplay fun d => d.change e.disk.workingPath call

/-- A change that is refused leaves the project as it is; else only the display is another one. -/
theorem Call.act_cases {call : Call} {x : Except Refusal Unit} (h : Ends (call.act e) p x q) :
    (∃ r, x = .error r ∧ q = p) ∨
      ∃ d, p.display.change e.disk.workingPath call = .ok d ∧ x = .ok () ∧
        q = { p with display := d } := by
  rcases Project.Action.ends_onDisplay_iff.1 h with ⟨r, -, hx, hq⟩ | hchanged
  · exact .inl ⟨r, hx, hq⟩
  · exact .inr hchanged

/-- Changes what the editor shows several times, whether or not a change is refused. -/
def Call.run (e : Surroundings) (p : Project) (calls : List Call) : Project :=
  calls.foldl (fun p call => (call.act e p).2) p

/-- The editor shows what the board holds, and the board holds each URI once. -/
structure Faithful (client : Client) (p : Project) : Prop where
  client : p.display.connection.client = client
  mirrored : p.display.Mirrored
  nodup : p.display.board.shown.keys.Nodup

/-- One change, refused or not, leaves the editor in step. -/
theorem Faithful.act {client : Client} {call : Call} {x : Except Refusal Unit}
    (h : Faithful client p) (hends : Ends (call.act e) p x q) : Faithful client q := by
  rcases Call.act_cases hends with ⟨r, -, rfl⟩ | ⟨d, hd, -, rfl⟩
  · exact h
  · obtain ⟨ns, hboard, hsent⟩ := Display.sent_of_change hd
    exact ⟨hsent.client.trans h.client, h.mirrored.change hd, Call.nodup_of_apply h.nodup hboard⟩

/-- Any changes leave the editor in step. -/
theorem Faithful.run {client : Client} (h : Faithful client p) (calls : List Call) :
    Faithful client (Call.run e p calls) := by
  induction calls generalizing p with
  | nil => exact h
  | cons call calls ih => exact ih (h.act rfl)

/-- Before the first change nothing is shown. -/
theorem faithful_start (client : Client) (topLevel : Nat) (forwarding : Bool) :
    Faithful client (Project.start (.start client topLevel forwarding)) :=
  ⟨rfl, Display.mirrored_start _ _ _, List.nodup_nil⟩

/-- A report that comes through sends the lists that it should. -/
theorem Faithful.publishes {client : Client} {documents : List Source} (h : Faithful client p)
    (hclient : client ≠ .absent)
    (hends : Ends ((Call.report report documents).act e) p (.ok ()) q) :
    ∃ sent, q.display.connection.notices = p.display.connection.notices ++ sent ∧
      Publishes e.disk.workingPath p.display.board report documents sent := by
  rcases Call.act_cases hends with ⟨r, hr, -⟩ | ⟨d, hd, -, rfl⟩
  · simp at hr
  · obtain ⟨ns, hboard, hsent⟩ := Display.sent_of_change hd
    obtain ⟨⟨board, current, stale⟩, hshow, heq⟩ := map_eq_ok_iff.1 hboard
    obtain ⟨-, rfl⟩ := Prod.mk.inj heq
    refine ⟨current ++ stale, ?_, publishes_of_showReport h.nodup hshow⟩
    rw [hsent.notices, if_neg (h.client ▸ hclient)]

/-- **The board is what the editor shows.** After any changes, refused ones among them, the last
list that the editor was sent for each URI is what the board holds for it. Whatever is tried next:
if it is refused, nothing is sent and nothing changes; if it is a report and comes through, it sends
one list for each document's URI with all messages located there, one empty list for each other URI
on the board, and nothing else. -/
theorem Call.sent_of_run {client : Client} (hclient : client ≠ .absent) (e : Surroundings)
    (topLevel : Nat) (forwarding : Bool) (calls : List Call) :
    let p := Call.run e (Project.start (.start client topLevel forwarding)) calls
    p.display.connection.view = p.display.board.view ∧
    (∀ call r q, Ends (Call.act e call) p (.error r) q → q = p) ∧
    ∀ report documents q, Ends ((Call.report report documents).act e) p (.ok ()) q →
      ∃ sent, q.display.connection.notices = p.display.connection.notices ++ sent ∧
        Publishes e.disk.workingPath p.display.board report documents sent := by
  intro p
  have hfaithful : Faithful client p := (faithful_start client topLevel forwarding).run calls
  refine ⟨?mirrored, ?refused, fun report documents q => hfaithful.publishes hclient⟩
  case mirrored =>
    have hmirrored := hfaithful.mirrored
    rw [Display.Mirrored, hfaithful.client, if_neg hclient] at hmirrored
    exact hmirrored
  case refused =>
    intro call r q hends
    rcases Call.act_cases hends with ⟨-, -, hq⟩ | ⟨-, -, hx, -⟩
    · exact hq
    · simp at hx

/-! ### Changes of all kinds -/

/-- An empty disk, and the compiler of this library. -/
def desk : Surroundings :=
  ⟨⟨[], []⟩, .standard⟩

/-- A document without text. -/
def documentNamed (name : String) : Source :=
  ⟨"file:///" ++ name, ⟨.single, [name]⟩, "", false⟩

/-- An error at the start of a line. -/
def errorAt (name : String) (line : Int) : Message :=
  ⟨.syntaxError, .error, "Syntax error", ⟨.single, [name]⟩, line, 1, ""⟩

/-- A report about two documents, a fault beyond all positions, which is refused, a fault at a third
document, and the clearing of the first one. -/
def mixedCalls : List Call := [
  .report (.failure [errorAt "a.npl" 1] []) [documentNamed "a.npl", documentNamed "b.npl"],
  .fault (errorAt "a.npl" 2147483649),
  .fault (errorAt "c.npl" 1),
  .retract "file:///a.npl"]

/-- A project after these changes. -/
def mixed : Project :=
  Call.run desk (Project.start (.start .plain 0 false)) mixedCalls

/-- A report about the second document alone, with an error two lines further down. -/
def mixedReport : Call :=
  .report (.failure [errorAt "b.npl" 3] []) [documentNamed "b.npl"]

/-- Four lists were sent, and the editor shows what the board holds. The fault beyond all positions
is refused again. A report about the second document sends its error and clears the third one. -/
theorem Call.sent_of_run_mixed :
    Client.plain ≠ .absent ∧
    mixed.display.connection.notices.map Prod.fst =
      ["file:///a.npl", "file:///b.npl", "file:///c.npl", "file:///a.npl"] ∧
    mixed.display.connection.view = mixed.display.board.view ∧
    (∃ r, Ends ((Call.fault (errorAt "a.npl" 2147483649)).act desk) mixed (.error r) mixed) ∧
    ∃ q : Project, Ends (mixedReport.act desk) mixed (.ok ()) q ∧
      q.display.connection.notices.map Prod.fst =
        ["file:///a.npl", "file:///b.npl", "file:///c.npl", "file:///a.npl"] ++
          ["file:///b.npl", "file:///c.npl"] ∧
      ∃ sent, q.display.connection.notices = mixed.display.connection.notices ++ sent ∧
        Publishes desk.disk.workingPath mixed.display.board (.failure [errorAt "b.npl" 3] [])
          [documentNamed "b.npl"] sent := by
  have hclient : Client.plain ≠ .absent := by decide
  obtain ⟨hmirrored, hrefused, hreport⟩ := Call.sent_of_run hclient desk 0 false mixedCalls
  have hfault : ∃ r q,
      Ends ((Call.fault (errorAt "a.npl" 2147483649)).act desk) mixed (.error r) q :=
    ⟨_, _, rfl⟩
  obtain ⟨r, q, hfault⟩ := hfault
  have hq : q = mixed := hrefused _ _ _ hfault
  rw [hq] at hfault
  have hok : (mixedReport.act desk mixed).1 = .ok () := toOption_eq_some_iff.1 (by decide +kernel)
  have hnext : Ends (mixedReport.act desk) mixed (.ok ()) (mixedReport.act desk mixed).2 :=
    Prod.ext hok rfl
  exact ⟨hclient, by decide +kernel, hmirrored, ⟨r, hfault⟩, _, hnext, by decide +kernel,
    hreport _ _ _ hnext⟩

end Board

end Npl
