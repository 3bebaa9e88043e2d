import Npl.Proofs.Board

/-!
# Delivery of diagnostics

Two parties change the board and send what the change sends: the handler of a request and the worker
that compiles when edits have settled. What a handler sends reaches the editor at once. What the
worker sends goes to the end of a queue, and the queue is delivered from its front while no handler is
running.

So what a handler sends can overtake what the worker sent before. Then the editor is left with the
diagnostics that arrive last, although the board has moved on. For a removed document this means that
its old diagnostics come back behind the empty list that should have cleared them.

## Main definitions

* `Delivery` — the board, the editor, and what is on its way.
* `Delivery.Reached` — what the two parties lead to, and which URIs were overtaken.

## Main results

* `Delivery.Reached.editor_eq_iff` — once everything was delivered, the editor shows what the board
  holds, except for the URIs that were overtaken.
-/

namespace Npl

/-- The board, what the editor shows, whether a handler is running, and the lists on their way: what
the handler still has to send, the queue, and what the worker still has to send. -/
structure Delivery where
  board : Board
  editor : View
  handling : Bool
  direct : List Notice
  queue : List Notice
  delayed : List Notice

namespace Delivery

open Board (Call)

variable {wd : Path} {s : Delivery} {late : String → Prop}

/-- What the editor will show when all that is on its way has arrived. -/
def arriving (s : Delivery) : View :=
  s.editor.receiveAll (s.direct ++ s.queue ++ s.delayed)

/-- Nothing is on its way. -/
structure Quiet (s : Delivery) : Prop where
  direct : s.direct = []
  queue : s.queue = []
  delayed : s.delayed = []

/-- What the two parties lead to from a board that the editor shows, and which URIs were overtaken: a
handler's change was about the URI while lists of the worker for it were on their way, the last of
them says something else, and no change has been about the URI since. -/
inductive Reached (wd : Path) : Delivery → (String → Prop) → Prop
  | start (b : Board) : Reached wd ⟨b, b.view, false, [], [], []⟩ fun _ => False
  /-- A handler starts. -/
  | enter {s : Delivery} {late : String → Prop} (h : Reached wd s late)
      (hidle : s.handling = false) : Reached wd { s with handling := true } late
  /-- The handler ends. -/
  | leave {s : Delivery} {late : String → Prop} (h : Reached wd s late) (hsent : s.direct = []) :
      Reached wd { s with handling := false } late
  /-- The handler changes the board. -/
  | handlerCall {s : Delivery} {late : String → Prop} {call : Call} {b : Board} {ns : List Notice}
      (h : Reached wd s late) (hrunning : s.handling = true) (hsent : s.direct = [])
      (hcall : call.apply wd s.board = .ok (b, ns)) :
      Reached wd { s with board := b, direct := ns } fun uri =>
        if uri ∈ ns.map Prod.fst then
          uri ∈ (s.queue ++ s.delayed).map Prod.fst ∧ s.arriving uri ≠ b.view uri
        else late uri
  /-- The worker changes the board. -/
  | workerCall {s : Delivery} {late : String → Prop} {call : Call} {b : Board} {ns : List Notice}
      (h : Reached wd s late) (hsent : s.delayed = [])
      (hcall : call.apply wd s.board = .ok (b, ns)) :
      Reached wd { s with board := b, delayed := ns } fun uri =>
        uri ∉ ns.map Prod.fst ∧ late uri
  /-- The handler sends a list, which arrives. -/
  | handlerSends {s : Delivery} {late : String → Prop} {n : Notice} {ns : List Notice}
      (h : Reached wd s late) (hdirect : s.direct = n :: ns) :
      Reached wd { s with direct := ns, editor := s.editor.receive n } late
  /-- The worker sends a list, which goes to the end of the queue. -/
  | workerSends {s : Delivery} {late : String → Prop} {n : Notice} {ns : List Notice}
      (h : Reached wd s late) (hdelayed : s.delayed = n :: ns) :
      Reached wd { s with delayed := ns, queue := s.queue ++ [n] } late
  /-- The first list of the queue arrives. -/
  | drains {s : Delivery} {late : String → Prop} {n : Notice} {ns : List Notice}
      (h : Reached wd s late) (hidle : s.handling = false) (hqueue : s.queue = n :: ns) :
      Reached wd { s with queue := ns, editor := s.editor.receive n } late

/-! ### What will arrive -/

/-- The handler has sent everything when it ends, and the URIs that were overtaken are those for which
something else will arrive than the board holds. -/
structure Tracked (s : Delivery) (late : String → Prop) : Prop where
  sent : s.handling = false → s.direct = []
  late_iff : ∀ uri, late uri ↔ s.arriving uri ≠ s.board.view uri

/-- A change about a URI is what the editor shows for it after it received what the change sends. -/
theorem receiveAll_of_call {call : Call} {b b' : Board} {ns : List Notice}
    (hcall : call.apply wd b = .ok (b', ns)) {uri : String} (h : uri ∈ ns.map Prod.fst) (v : View) :
    v.receiveAll ns uri = b'.view uri := by
  rw [← Call.view_of_apply hcall]
  exact View.receiveAll_congr h

/-- A change that is not about a URI leaves it on the board as it is. -/
theorem view_of_call {call : Call} {b b' : Board} {ns : List Notice}
    (hcall : call.apply wd b = .ok (b', ns)) {uri : String} (h : uri ∉ ns.map Prod.fst) :
    b'.view uri = b.view uri := by
  rw [← Call.view_of_apply hcall]
  exact View.receiveAll_of_not_mem h

/-- What a handler sends arrives before what is on its way already. -/
theorem Tracked.handlerCall (h : Tracked s late) (hrunning : s.handling = true)
    (hsent : s.direct = []) {call : Call} {b : Board} {ns : List Notice}
    (hcall : call.apply wd s.board = .ok (b, ns)) :
    Tracked { s with board := b, direct := ns } fun uri =>
      if uri ∈ ns.map Prod.fst then
        uri ∈ (s.queue ++ s.delayed).map Prod.fst ∧ s.arriving uri ≠ b.view uri
      else late uri := by
  refine ⟨fun hidle => by simp [hrunning] at hidle, ?_⟩
  intro uri
  have hbefore : s.arriving uri = s.editor.receiveAll (s.queue ++ s.delayed) uri := by
    rw [arriving, hsent, List.nil_append]
  have hafter : ({ s with board := b, direct := ns } : Delivery).arriving uri =
      (s.editor.receiveAll ns).receiveAll (s.queue ++ s.delayed) uri := by
    rw [arriving, List.append_assoc, View.receiveAll_append]
  rw [hafter]
  by_cases habout : uri ∈ ns.map Prod.fst
  · rw [if_pos habout]
    by_cases hflight : uri ∈ (s.queue ++ s.delayed).map Prod.fst
    · have hsame := View.receiveAll_congr (v := s.editor.receiveAll ns) (w := s.editor) hflight
      rw [hsame, ← hbefore]
      exact and_iff_right hflight
    · rw [View.receiveAll_of_not_mem hflight, receiveAll_of_call hcall habout]
      exact iff_of_false (fun h => hflight h.1) fun h => h rfl
  · rw [if_neg habout, h.late_iff, view_of_call hcall habout, hbefore]
    by_cases hflight : uri ∈ (s.queue ++ s.delayed).map Prod.fst
    · rw [View.receiveAll_congr (v := s.editor.receiveAll ns) (w := s.editor) hflight]
    · rw [View.receiveAll_of_not_mem hflight, View.receiveAll_of_not_mem hflight,
        View.receiveAll_of_not_mem habout]

/-- What the worker sends arrives last. -/
theorem Tracked.workerCall (h : Tracked s late) (hsent : s.delayed = []) {call : Call} {b : Board}
    {ns : List Notice} (hcall : call.apply wd s.board = .ok (b, ns)) :
    Tracked { s with board := b, delayed := ns } fun uri => uri ∉ ns.map Prod.fst ∧ late uri := by
  refine ⟨h.sent, ?_⟩
  intro uri
  have hafter : ({ s with board := b, delayed := ns } : Delivery).arriving uri =
      s.arriving.receiveAll ns uri := by
    rw [arriving, arriving, hsent, List.append_nil, View.receiveAll_append]
  rw [hafter]
  by_cases habout : uri ∈ ns.map Prod.fst
  · rw [receiveAll_of_call hcall habout]
    simp [habout]
  · rw [View.receiveAll_of_not_mem habout, view_of_call hcall habout, ← h.late_iff]
    exact and_iff_right habout

/-- What is sent or delivered changes nothing about what will arrive. -/
theorem Tracked.of_arriving {t : Delivery} (h : Tracked s late) (hboard : t.board = s.board)
    (harriving : t.arriving = s.arriving) (hsent : t.handling = false → t.direct = []) :
    Tracked t late := by
  refine ⟨hsent, ?_⟩
  intro uri
  rw [harriving, hboard]
  exact h.late_iff uri

/-- What holds along a run holds at its end. -/
theorem Reached.tracked (h : Reached wd s late) : Tracked s late := by
  induction h with
  | start b => exact ⟨fun _ => rfl, fun uri => by simp [arriving]⟩
  | enter _ _ ih => exact ih.of_arriving rfl rfl fun hidle => by simp at hidle
  | leave _ hsent ih => exact ih.of_arriving rfl rfl fun _ => hsent
  | handlerCall _ hrunning hsent hcall ih => exact ih.handlerCall hrunning hsent hcall
  | workerCall _ hsent hcall ih => exact ih.workerCall hsent hcall
  | @handlerSends s late n ns _ hdirect ih =>
      refine ih.of_arriving rfl ?_ fun hidle => ?_
      · simp [arriving, hdirect]
      · simp [ih.sent hidle] at hdirect
  | @workerSends s late n ns _ hdelayed ih =>
      refine ih.of_arriving rfl ?_ ih.sent
      simp [arriving, hdelayed]
  | @drains s late n ns _ hidle hqueue ih =>
      refine ih.of_arriving rfl ?_ ih.sent
      simp [arriving, ih.sent hidle, hqueue]

/-! ### What has arrived -/

/-- Once everything was delivered, the editor shows for a URI what the board holds, exactly if the URI
was not overtaken. -/
theorem Reached.editor_eq_iff (h : Reached wd s late) (hquiet : s.Quiet) (uri : String) :
    s.editor uri = s.board.view uri ↔ ¬ late uri := by
  have harrived : s.arriving = s.editor := by
    rw [arriving, hquiet.direct, hquiet.queue, hquiet.delayed]
    rfl
  rw [h.tracked.late_iff, harrived, Classical.not_not]

/-! ### An overtaken report -/

/-- A document that is removed. -/
def removed : Source :=
  ⟨"file:///a.npl", ⟨.single, ["a.npl"]⟩, "", false⟩

/-- What the compiler said about the document before it was removed. -/
def oldReport : Report :=
  .failure [⟨.syntaxError, .error, "Syntax error: missing 'package' at '<EOF>'", removed.location,
    1, 1, ""⟩] []

/-- The diagnostics of the document. -/
def oldDiagnostics : List Diagnostic :=
  [⟨⟨⟨0, 0⟩, ⟨0, 0⟩⟩, .error, 1, "Syntax error: missing 'package' at '<EOF>'"⟩]

theorem apply_oldReport : (Call.report oldReport [removed]).apply ⟨.single, []⟩ .empty =
    .ok (⟨⟨[(removed.uri, oldDiagnostics)]⟩⟩, [(removed.uri, oldDiagnostics)]) :=
  toOption_eq_some_iff.1 (by decide +kernel)

theorem apply_removed : (Call.retract removed.uri).apply ⟨.single, []⟩
    ⟨⟨[(removed.uri, oldDiagnostics)]⟩⟩ = .ok (.empty, [(removed.uri, [])]) :=
  toOption_eq_some_iff.1 (by decide +kernel)

/-- The worker's report is queued while a handler runs, and the handler removes the document. When
everything was delivered, the board holds nothing for the document, and the editor shows its old
diagnostics. -/
theorem Reached.editor_eq_iff_removed :
    ∃ s late, Reached ⟨.single, []⟩ s late ∧ s.Quiet ∧ s.board = .empty ∧
      s.editor removed.uri = oldDiagnostics ∧ s.editor removed.uri ≠ s.board.view removed.uri := by
  have hqueued := (((Reached.start .empty).enter rfl).workerCall rfl apply_oldReport).workerSends rfl
  have hcleared := ((hqueued.handlerCall rfl rfl apply_removed).handlerSends rfl).leave rfl
  have hdone := hcleared.drains rfl rfl
  refine ⟨_, _, hdone, ⟨rfl, rfl, rfl⟩, rfl, ?_, ?_⟩
  · decide +kernel
  · intro heq
    refine (hdone.editor_eq_iff ⟨rfl, rfl, rfl⟩ removed.uri).1 heq ?_
    decide +kernel

end Delivery

end Npl
