import Npl.Project.Change
import Npl.Proofs.Except

/-!
# Running actions

An action takes a project to a result or a refusal, and to the project afterwards. This module says
how that composes, and what the small actions do: writing to the log and sending diagnostics change
the display only.

## Main definitions

* `Project.Action.Ends` — an action takes a project to a result and another project.
* `Project.Logged` — a project in which only the journal has gone on.

## Main results

* `Project.Action.ends_bind_iff` — one action after another.
-/

namespace Npl.Project

namespace Action

variable {α β : Type} {p q : Project}

/-- The action takes the project `p` to the result `x` and the project `q`. -/
def Ends (a : Action α) (p : Project) (x : Except Refusal α) (q : Project) : Prop :=
  a p = (x, q)

/-! ### Composition -/

/-- One action after another: the first one is refused, or the second one goes on from where the
first one ended. -/
theorem ends_bind_iff {a : Action α} {f : α → Action β} {x : Except Refusal β} :
    Ends (a >>= f) p x q ↔
      (∃ r, Ends a p (.error r) q ∧ x = .error r) ∨
        ∃ y mid, Ends a p (.ok y) mid ∧ Ends (f y) mid x q := by
  unfold Ends
  rw [bind_apply]
  cases ha : a p with
  | mk y mid =>
      cases y with
      | error r => grind
      | ok y => grind

/-- An action that is known to end somewhere ends there only. -/
theorem ends_iff_of_eq {a : Action α} {x y : Except Refusal α} {s : Project} (h : a p = (y, s)) :
    Ends a p x q ↔ x = y ∧ q = s := by
  rw [Ends, h, Prod.mk.injEq]
  exact ⟨fun ⟨hx, hq⟩ => ⟨hx.symm, hq.symm⟩, fun ⟨hx, hq⟩ => ⟨hx.symm, hq.symm⟩⟩

@[simp] theorem ends_pure_iff {a : α} {x : Except Refusal α} :
    Ends (pure a) p x q ↔ x = .ok a ∧ q = p :=
  ends_iff_of_eq rfl

@[simp] theorem ends_set_iff {x : Except Refusal PUnit} {s : Project} :
    Ends (set s) p x q ↔ x = .ok ⟨⟩ ∧ q = s :=
  ends_iff_of_eq rfl

@[simp] theorem ends_answer_iff {r x : Except Refusal α} :
    Ends (answer r) p x q ↔ x = r ∧ q = p :=
  ends_iff_of_eq rfl

/-- Behind an action that is known to end somewhere, the next one starts there. -/
theorem ends_bind_iff_of_eq {a : Action α} {f : α → Action β} {x : Except Refusal β} {y : α}
    {s : Project} (h : a p = (.ok y, s)) : Ends (a >>= f) p x q ↔ Ends (f y) s x q := by
  rw [ends_bind_iff]
  constructor
  · rintro (⟨r, hr, -⟩ | ⟨z, mid, hz, hf⟩)
    · obtain ⟨hy, -⟩ := (ends_iff_of_eq h).1 hr
      simp at hy
    · obtain ⟨hy, rfl⟩ := (ends_iff_of_eq h).1 hz
      obtain rfl := Except.ok.inj hy
      exact hf
  · exact fun hf => .inr ⟨y, s, h, hf⟩

@[simp] theorem ends_get_bind_iff {f : Project → Action β} {x : Except Refusal β} :
    Ends (get >>= f) p x q ↔ Ends (f p) p x q :=
  ends_bind_iff_of_eq rfl

@[simp] theorem ends_set_bind_iff {f : PUnit → Action β} {x : Except Refusal β} {s : Project} :
    Ends (set s >>= f) p x q ↔ Ends (f ⟨⟩) s x q :=
  ends_bind_iff_of_eq rfl

@[simp] theorem ends_modify_bind_iff {f : PUnit → Action β} {x : Except Refusal β}
    {g : Project → Project} : Ends (modify g >>= f) p x q ↔ Ends (f ⟨⟩) (g p) x q :=
  ends_bind_iff_of_eq rfl

/-- An action after a known answer. -/
theorem ends_answer_bind_iff {r : Except Refusal α} {f : α → Action β} {x : Except Refusal β} :
    Ends (answer r >>= f) p x q ↔
      (∃ e, r = .error e ∧ x = .error e ∧ q = p) ∨ ∃ y, r = .ok y ∧ Ends (f y) p x q := by
  rw [ends_bind_iff]
  constructor
  · rintro (⟨e, hr, rfl⟩ | ⟨y, mid, hy, hf⟩)
    · obtain ⟨he, rfl⟩ := ends_answer_iff.1 hr
      exact .inl ⟨e, he.symm, rfl, rfl⟩
    · obtain ⟨hr, rfl⟩ := ends_answer_iff.1 hy
      exact .inr ⟨y, hr.symm, hf⟩
  · rintro (⟨e, rfl, rfl, rfl⟩ | ⟨y, rfl, hf⟩)
    · exact .inl ⟨e, ends_answer_iff.2 ⟨rfl, rfl⟩, rfl⟩
    · exact .inr ⟨y, p, ends_answer_iff.2 ⟨rfl, rfl⟩, hf⟩

/-- An action behind which a value is known. -/
theorem ends_bind_pure_iff {a : Action α} {b : β} {x : Except Refusal β} :
    Ends (a >>= fun _ => pure b) p x q ↔ ∃ y, Ends a p y q ∧ x = y.map fun _ => b := by
  rw [ends_bind_iff]
  constructor
  · rintro (⟨r, hr, rfl⟩ | ⟨y, mid, hy, hpure⟩)
    · exact ⟨.error r, hr, rfl⟩
    · obtain ⟨rfl, rfl⟩ := ends_pure_iff.1 hpure
      exact ⟨.ok y, hy, rfl⟩
  · rintro ⟨y, hy, rfl⟩
    cases y with
    | error r => exact .inl ⟨r, hy, rfl⟩
    | ok y => exact .inr ⟨y, q, hy, ends_pure_iff.2 ⟨rfl, rfl⟩⟩

/-- Ignoring the result of an action. -/
theorem ends_discard_iff {a : Action α} {x : Except Refusal PUnit} :
    Ends (discard a) p x q ↔ ∃ y, Ends a p y q ∧ x = y.map fun _ => ⟨⟩ := by
  rw [ends_iff_of_eq (discard_apply a p)]
  constructor
  · rintro ⟨rfl, rfl⟩
    exact ⟨(a p).1, rfl, rfl⟩
  · rintro ⟨y, hy, rfl⟩
    rw [Ends] at hy
    simp [hy]

end Action

/-! ### The journal -/

/-- Noting an event takes nothing out of the journal. -/
theorem journal_note (c : Connection) (event : Event) : c.journal <+: (c.note event).journal :=
  List.prefix_append c.journal [event]

/-- Writing to the log takes nothing out of the journal. -/
theorem journal_log (c : Connection) (r : LogRecord) : c.journal <+: (c.log r).journal := by
  have htrace : ∀ level text, c.journal <+: (c.sendTrace level text).journal := by
    intro level text
    unfold Connection.sendTrace
    split
    · exact journal_note c _
    · exact List.prefix_refl _
  unfold Connection.log
  split
  · unfold Connection.forward
    split
    · split
      · exact List.prefix_refl _
      · exact journal_note c _
    · exact htrace _ _
  · exact List.prefix_refl _

/-- Sending diagnostics takes nothing out of the journal. -/
theorem journal_publish (c : Connection) (notice : Notice) :
    c.journal <+: (c.publish notice.1 notice.2).journal := by
  unfold Connection.publish
  split
  · exact journal_log c _
  · exact journal_note c _

theorem journal_send (d : Display) (notices : List Notice) :
    d.connection.journal <+: (d.send notices).connection.journal := by
  obtain ⟨board, c⟩ := d
  simp only [Display.send]
  induction notices generalizing c with
  | nil => exact List.prefix_refl _
  | cons notice notices ih => exact (journal_publish c notice).trans (ih _)

/-! ### The display -/

/-- What the editor shows is changed by what is sent, and the journal goes on. -/
structure Shown (d d' : Display) (board : Board) : Prop where
  board : d'.board = board
  journal : d.connection.journal <+: d'.connection.journal

/-- A report that is shown is shown on the board. -/
theorem shown_of_showReport {d d' : Display} {wd : Path} {report : Report}
    {documents : List Source} (h : d.showReport wd report documents = .ok d') :
    ∃ board notices, d.board.showReport wd report documents = .ok (board, notices) ∧
      Shown d d' board := by
  obtain ⟨⟨board, current, stale⟩, hshown, hd⟩ := bind_eq_ok_iff.1 h
  obtain rfl := pure_eq_ok_iff.1 hd
  exact ⟨board, _, hshown, rfl, (journal_send { d with board } _).trans (journal_log _ _)⟩

/-- A report that is not shown is refused by the board. -/
theorem board_refuses_of_showReport {d : Display} {wd : Path} {report : Report}
    {documents : List Source} {r : Refusal} (h : d.showReport wd report documents = .error r) :
    d.board.showReport wd report documents = .error r := by
  rcases bind_eq_error_iff.1 h with hr | ⟨shown, -, hr⟩
  · exact hr
  · exact absurd hr pure_ne_error

/-- A fault that is shown is shown on the board. -/
theorem shown_of_showFault {d d' : Display} {wd : Path} {message : Message}
    (h : d.showFault wd message = .ok d') :
    ∃ board notice, d.board.showFault wd message = .ok (board, notice) ∧ Shown d d' board := by
  obtain ⟨⟨board, notice⟩, hshown, hd⟩ := bind_eq_ok_iff.1 h
  obtain rfl := pure_eq_ok_iff.1 hd
  exact ⟨board, notice, hshown, rfl, journal_send { d with board } _⟩

/-- A document that is cleared is cleared on the board. -/
theorem shown_of_retract {d d' : Display} {wd : Path} {uri : String}
    (h : d.retract wd uri = .ok d') :
    ∃ board notice, d.board.retract wd uri = .ok (board, notice) ∧ Shown d d' board := by
  obtain ⟨⟨board, notice⟩, hshown, hd⟩ := bind_eq_ok_iff.1 h
  obtain rfl := pure_eq_ok_iff.1 hd
  exact ⟨board, notice, hshown, rfl, journal_send { d with board } _⟩

/-! ### The log -/

/-- Nothing but the connection has changed, and its journal has gone on. -/
structure Logged (p q : Project) : Prop where
  same : q = { p with display.connection := q.display.connection }
  journal : p.display.connection.journal <+: q.display.connection.journal

namespace Logged

variable {p q s : Project}

theorem refl (p : Project) : Logged p p :=
  ⟨rfl, List.prefix_refl _⟩

theorem trans (h : Logged p q) (h' : Logged q s) : Logged p s :=
  ⟨by rw [h'.same, h.same], h.journal.trans h'.journal⟩

theorem documents (h : Logged p q) : q.documents = p.documents := by rw [h.same]

theorem workspace (h : Logged p q) : q.workspace = p.workspace := by rw [h.same]

theorem libraries (h : Logged p q) : q.libraries = p.libraries := by rw [h.same]

theorem last? (h : Logged p q) : q.last? = p.last? := by rw [h.same]

theorem board (h : Logged p q) : q.display.board = p.display.board := by rw [h.same]

/-- Writing a record. -/
theorem log (p : Project) (r : LogRecord) : Logged p { p with display := p.display.log r } :=
  ⟨rfl, journal_log _ _⟩

end Logged

namespace Action

variable {β : Type} {p q : Project}

@[simp] theorem ends_log_iff {r : LogRecord} {x : Except Refusal Unit} :
    Ends (log r) p x q ↔ x = .ok () ∧ q = { p with display := p.display.log r } :=
  ends_iff_of_eq rfl

@[simp] theorem ends_log_bind_iff {r : LogRecord} {f : Unit → Action β} {x : Except Refusal β} :
    Ends (log r >>= f) p x q ↔ Ends (f ()) { p with display := p.display.log r } x q :=
  ends_bind_iff_of_eq rfl

/-- Writing records always succeeds and only writes. -/
theorem logged_of_ends_forM {rs : List LogRecord} {x : Except Refusal PUnit}
    (h : Ends (rs.forM log) p x q) : x = .ok ⟨⟩ ∧ Logged p q := by
  induction rs generalizing p with
  | nil =>
      obtain ⟨rfl, rfl⟩ := ends_pure_iff.1 h
      exact ⟨rfl, .refl _⟩
  | cons r rs ih =>
      obtain ⟨hx, hlogged⟩ := ih (ends_log_bind_iff.1 h)
      exact ⟨hx, (Logged.log p r).trans hlogged⟩

/-- Changing what the editor shows: it is refused, or the display is another one. -/
theorem ends_onDisplay_iff {f : Display → Except Refusal Display} {x : Except Refusal Unit} :
    Ends (onDisplay f) p x q ↔
      (∃ r, f p.display = .error r ∧ x = .error r ∧ q = p) ∨
        ∃ d, f p.display = .ok d ∧ x = .ok () ∧ q = { p with display := d } := by
  unfold onDisplay
  rw [ends_get_bind_iff, ends_answer_bind_iff]
  constructor
  · rintro (hr | ⟨d, hd, hset⟩)
    · exact .inl hr
    · exact .inr ⟨d, hd, ends_set_iff.1 hset⟩
  · rintro (hr | ⟨d, hd, hset⟩)
    · exact .inl hr
    · exact .inr ⟨d, hd, ends_set_iff.2 hset⟩

end Action

end Npl.Project
