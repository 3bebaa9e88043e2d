import Npl.Display
import Npl.Proofs.Board

/-!
# What the editor was sent

The journal of a connection holds, among other things, the lists of diagnostics that were sent. What
an editor shows is the last list that it was sent for each URI. A change of the display sends
exactly the lists that the same change of the board answers, so an editor that shows what the board
holds goes on doing so.

Without an editor nothing is sent at all.

## Main definitions

* `Connection.notices` — the lists of diagnostics sent so far.
* `Connection.view` — what the editor shows.
* `Display.Mirrored` — the editor shows what the board holds.

## Main results

* `Display.sent_of_change` — a change of the display sends what the change of the board answers.
* `Display.Mirrored.change` — the editor goes on showing what the board holds.
-/

namespace Npl

/-! ### Lists in the journal -/

/-- The list of diagnostics that an event sends, if it sends one. -/
def Event.notice? : Event → Option Notice
  | publish uri diagnostics => some (uri, diagnostics)
  | log .. | trace _ | compile _ => none

namespace Connection

/-- The lists of diagnostics sent so far, in order. -/
def notices (c : Connection) : List Notice :=
  c.journal.filterMap Event.notice?

/-- What the editor shows: the last list that it was sent for each URI, and nothing for URIs that it
was never sent a list for. -/
def view (c : Connection) : View :=
  View.receiveAll (fun _ => []) c.notices

variable (c : Connection)

theorem notices_note (event : Event) :
    (c.note event).notices = c.notices ++ event.notice?.toList := by
  simp only [notices, note, List.filterMap_append]
  cases event <;> rfl

/-- A log record changes the journal by messages and traces only. -/
theorem log_cases (r : LogRecord) :
    c.log r = c ∨ ∃ event, event.notice? = none ∧ c.log r = c.note event := by
  have htrace : ∀ level text, c.sendTrace level text = c ∨
      ∃ event, event.notice? = none ∧ c.sendTrace level text = c.note event := by
    intro level text
    unfold sendTrace
    split
    · exact .inr ⟨.trace text, rfl, rfl⟩
    · exact .inl rfl
  unfold log
  split
  · unfold forward
    split
    · split
      · exact .inl rfl
      · exact .inr ⟨_, rfl, rfl⟩
    · exact htrace _ _
  · exact .inl rfl

@[simp] theorem notices_log (r : LogRecord) : (c.log r).notices = c.notices := by
  rcases c.log_cases r with heq | ⟨event, hnone, heq⟩
  · rw [heq]
  · rw [heq, notices_note, hnone, Option.toList_none, List.append_nil]

@[simp] theorem client_log (r : LogRecord) : (c.log r).client = c.client := by
  rcases c.log_cases r with heq | ⟨event, -, heq⟩
  · rw [heq]
  · rw [heq, note]

@[simp] theorem client_publish (uri : String) (diagnostics : List Diagnostic) :
    (c.publish uri diagnostics).client = c.client := by
  unfold publish
  split
  · exact c.client_log _
  · rfl

/-- Sending a list adds it to what was sent, if there is an editor. -/
theorem notices_publish (n : Notice) :
    (c.publish n.1 n.2).notices = c.notices ++ if c.client = .absent then [] else [n] := by
  unfold publish
  split
  · next habsent => simp
  · next hpresent => exact c.notices_note _

end Connection

/-! ### Sending -/

namespace Display

@[simp] theorem client_send (d : Display) (ns : List Notice) :
    (d.send ns).connection.client = d.connection.client := by
  obtain ⟨board, c⟩ := d
  simp only [send]
  induction ns generalizing c with
  | nil => rfl
  | cons n ns ih => rw [List.foldl_cons, ih, Connection.client_publish]

/-- Lists are sent one after the other, if there is an editor. -/
theorem notices_send (d : Display) (ns : List Notice) :
    (d.send ns).connection.notices =
      d.connection.notices ++ if d.connection.client = .absent then [] else ns := by
  obtain ⟨board, c⟩ := d
  simp only [send]
  induction ns generalizing c with
  | nil => simp
  | cons n ns ih =>
      rw [List.foldl_cons, ih, Connection.client_publish, Connection.notices_publish]
      split <;> simp

/-! ### Changes -/

variable {wd : Path} {d d' : Display}

/-- A change of what the editor shows. -/
def change (wd : Path) (d : Display) : Board.Call → Except Refusal Display
  | .report report documents => d.showReport wd report documents
  | .fault message => d.showFault wd message
  | .retract uri => d.retract wd uri

/-- The board of a display has changed, and lists were sent. -/
structure Sent (d d' : Display) (ns : List Notice) : Prop where
  client : d'.connection.client = d.connection.client
  notices : d'.connection.notices =
    d.connection.notices ++ if d.connection.client = .absent then [] else ns

/-- A change of the display sends what the change of the board answers. -/
theorem sent_of_change {call : Board.Call} (h : d.change wd call = .ok d') :
    ∃ ns, call.apply wd d.board = .ok (d'.board, ns) ∧ Sent d d' ns := by
  cases call with
  | report report documents =>
      obtain ⟨⟨board, current, stale⟩, hshown, hd⟩ := bind_eq_ok_iff.1 h
      obtain rfl := pure_eq_ok_iff.1 hd
      refine ⟨current ++ stale, map_eq_ok_iff.2 ⟨_, hshown, rfl⟩, ?_, ?_⟩
      · simp [log]
      · rw [log, Connection.notices_log, notices_send]
  | fault message =>
      obtain ⟨⟨board, notice⟩, hshown, hd⟩ := bind_eq_ok_iff.1 h
      obtain rfl := pure_eq_ok_iff.1 hd
      exact ⟨[notice], map_eq_ok_iff.2 ⟨_, hshown, rfl⟩, client_send _ _, notices_send _ _⟩
  | retract uri =>
      obtain ⟨⟨board, notice⟩, hshown, hd⟩ := bind_eq_ok_iff.1 h
      obtain rfl := pure_eq_ok_iff.1 hd
      exact ⟨[notice], map_eq_ok_iff.2 ⟨_, hshown, rfl⟩, client_send _ _, notices_send _ _⟩

/-! ### The editor and the board -/

/-- The editor shows what the board holds. Without an editor nothing is shown. -/
def Mirrored (d : Display) : Prop :=
  d.connection.view = if d.connection.client = .absent then fun _ => [] else d.board.view

/-- Nothing is shown, and the board is empty. -/
theorem mirrored_start (client : Client) (topLevel : Nat) (forwarding : Bool) :
    (start (.start client topLevel forwarding)).Mirrored := by
  unfold Mirrored
  split
  · rfl
  · rfl

/-- What concerns neither the lists sent nor the board keeps the editor in step. -/
theorem Mirrored.of_same (h : d.Mirrored) (hboard : d'.board = d.board)
    (hclient : d'.connection.client = d.connection.client)
    (hnotices : d'.connection.notices = d.connection.notices) : d'.Mirrored := by
  rw [Mirrored, Connection.view, hnotices, hclient, hboard]
  exact h

/-- The editor goes on showing what the board holds. -/
theorem Mirrored.change {call : Board.Call} (h : d.Mirrored) (hchange : d.change wd call = .ok d') :
    d'.Mirrored := by
  obtain ⟨ns, hboard, hsent⟩ := sent_of_change hchange
  unfold Mirrored at h ⊢
  rw [hsent.client, Connection.view, hsent.notices]
  split
  · next habsent =>
      rw [if_pos habsent] at h
      rw [List.append_nil]
      exact h
  · next hpresent =>
      rw [if_neg hpresent] at h
      rw [View.receiveAll_append, ← Connection.view, h]
      exact Board.Call.view_of_apply hboard

end Display

end Npl
