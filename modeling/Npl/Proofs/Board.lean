import Npl.Board
import Npl.Proofs.Except
import Npl.Proofs.Keyed

/-!
# What the board sends

The lists of diagnostics that a change of the board sends are exactly those that an editor needs to
show what the board holds, if it showed that before.

## Main definitions

* `View` — what an editor shows for each URI.
* `Board.Call` — a change of the board, with the lists that it sends.

## Main results

* `Board.Call.view_of_apply` — an editor that receives the lists shows what the board holds.
-/

namespace Npl

/-- What an editor shows for each URI. -/
abbrev View : Type := String → List Diagnostic

/-- What an editor shows after it received a list. -/
def View.receive (v : View) (n : Notice) : View :=
  fun uri => if n.1 = uri then n.2 else v uri

/-- What an editor shows after it received several lists. -/
def View.receiveAll (v : View) (ns : List Notice) : View :=
  ns.foldl View.receive v

namespace View

variable {v w : View} {uri : String}

@[simp] theorem receiveAll_nil : v.receiveAll [] = v := rfl

@[simp] theorem receiveAll_cons {n : Notice} {ns : List Notice} :
    v.receiveAll (n :: ns) = (v.receive n).receiveAll ns := rfl

theorem receiveAll_append {ns ms : List Notice} :
    v.receiveAll (ns ++ ms) = (v.receiveAll ns).receiveAll ms :=
  List.foldl_append

/-- Lists for other URIs change nothing. -/
theorem receiveAll_of_not_mem {ns : List Notice} (h : uri ∉ ns.map Prod.fst) :
    v.receiveAll ns uri = v uri := by
  induction ns generalizing v with
  | nil => rfl
  | cons n ns ih =>
      rw [List.map_cons, List.mem_cons, not_or] at h
      rw [receiveAll_cons, ih h.2, receive, if_neg (Ne.symm h.1)]

/-- Where a list was received, it does not matter what was shown before. -/
theorem receiveAll_congr {ns : List Notice} (h : uri ∈ ns.map Prod.fst) :
    v.receiveAll ns uri = w.receiveAll ns uri := by
  induction ns generalizing v w with
  | nil => simp at h
  | cons n ns ih =>
      rw [receiveAll_cons, receiveAll_cons]
      by_cases hlater : uri ∈ ns.map Prod.fst
      · exact ih hlater
      · have hfirst : n.1 = uri := by
          rcases List.mem_cons.1 h with heq | htail
          · exact heq.symm
          · exact absurd htail hlater
        rw [receiveAll_of_not_mem hlater, receiveAll_of_not_mem hlater, receive, receive,
          if_pos hfirst, if_pos hfirst]

/-- The entries of a keyed list are shown, and all else stays as it is. -/
theorem receiveAll_entries {m : Keyed (List Diagnostic)} (h : m.keys.Nodup) :
    v.receiveAll m.entries uri = (m.get? uri).getD (v uri) := by
  obtain ⟨es⟩ := m
  simp only [Keyed.keys, Keyed.get?] at h ⊢
  induction es generalizing v with
  | nil => rfl
  | cons n es ih =>
      rw [List.map_cons, List.nodup_cons] at h
      rw [receiveAll_cons, ih h.2, Keyed.lookup]
      by_cases heq : n.1 = uri
      · have hnone : Keyed.lookup uri es = none :=
          Keyed.get?_eq_none_iff (m := ⟨es⟩).2 (heq ▸ h.1)
        rw [hnone, if_pos heq, Option.getD_none, receive, if_pos heq, Option.getD_some]
      · rw [if_neg heq, receive, if_neg heq]

/-- Empty lists clear what is shown. -/
theorem receiveAll_cleared {keys : List String} :
    v.receiveAll (keys.map (·, [])) uri = if uri ∈ keys then [] else v uri := by
  induction keys generalizing v with
  | nil => rfl
  | cons key keys ih =>
      rw [List.map_cons, receiveAll_cons, ih, receive]
      by_cases heq : key = uri
      · simp [heq]
      · simp [heq, Ne.symm heq]

end View

namespace Board

variable {b b' : Board} {wd : Path}

/-- What the board holds. -/
def view (b : Board) : View :=
  fun uri => (b.shown.get? uri).getD []

/-- Messages that have diagnostics can be located. -/
theorem exists_locate {messages : List Message} (h : ∀ m ∈ messages, ∃ d, m.toDiagnostic = .ok d)
    (wd : Path) : ∃ located, locate wd messages = .ok located := by
  induction messages with
  | nil => exact ⟨[], rfl⟩
  | cons m ms ih =>
      obtain ⟨d, hd⟩ := h m List.mem_cons_self
      obtain ⟨located, hlocated⟩ := ih fun m' hm' => h m' (List.mem_cons_of_mem _ hm')
      unfold locate at hlocated ⊢
      refine ⟨(m.location.toUri wd, d) :: located, ?_⟩
      rw [List.mapM_cons, hlocated, hd]
      rfl

/-- A report about documents that have keys is refused only because one of its messages has no
position in the protocol. -/
theorem place_of_showReport {report : Report} {documents : List Source} {keys : List String}
    (hkeys : keysOf wd documents = .ok keys) {r : Refusal}
    (h : b.showReport wd report documents = .error r) :
    ∃ m ∈ report.messages, ∃ f, m.toDiagnostic = .error f ∧ r = .place f := by
  rcases bind_eq_error_iff.1 h with hlocate | ⟨located, -, h⟩
  · obtain ⟨m, hm, hrefused⟩ := exists_of_mapM_eq_error hlocate
    obtain ⟨f, hf, rfl⟩ := mapError_eq_error_iff.1 (map_eq_error_iff.1 hrefused)
    exact ⟨m, hm, f, hf, rfl⟩
  · rcases bind_eq_error_iff.1 h with hr | ⟨keys', -, hpure⟩
    · simp [hkeys] at hr
    · exact absurd hpure pure_ne_error

/-- A fault is refused only because it has no position in the protocol. -/
theorem place_of_showFault {message : Message} {r : Refusal}
    (h : b.showFault wd message = .error r) :
    ∃ f, message.toDiagnostic = .error f ∧ r = .place f := by
  rcases bind_eq_error_iff.1 h with hr | ⟨d, -, hpure⟩
  · obtain ⟨f, hf, rfl⟩ := mapError_eq_error_iff.1 hr
    exact ⟨f, hf, rfl⟩
  · exact absurd hpure pure_ne_error

/-! ### Changes -/

/-- A report sends what is new, and clears what was shown before. -/
theorem view_of_showReport {report : Report} {documents : List Source}
    {current stale : List Notice}
    (h : b.showReport wd report documents = .ok (b', current, stale)) :
    b.view.receiveAll (current ++ stale) = b'.view := by
  obtain ⟨located, -, hrest⟩ := bind_eq_ok_iff.1 h
  obtain ⟨keys, -, hpure⟩ := bind_eq_ok_iff.1 hrest
  obtain ⟨hboard, hnotices⟩ := Prod.mk.inj (pure_eq_ok_iff.1 hpure)
  obtain ⟨hcurrent, hstale⟩ := Prod.mk.inj hnotices
  generalize hnew : Keyed.ofList _ = new at hboard hcurrent hstale
  have hnodup : new.keys.Nodup := hnew ▸ Keyed.nodup_keys_ofList _
  subst hboard hcurrent hstale
  funext uri
  rw [View.receiveAll_append, View.receiveAll_cleared, View.receiveAll_entries hnodup]
  simp only [view, List.mem_filter, Keyed.contains]
  cases hfound : new.get? uri with
  | some ds => simp
  | none =>
      by_cases hshown : uri ∈ b.shown.keys
      · simp [hshown]
      · have habsent : b.shown.get? uri = none := Keyed.get?_eq_none_iff.2 hshown
        simp [hshown, habsent]

/-- A fault sends what is shown for its document. -/
theorem view_of_showFault {message : Message} {notice : Notice}
    (h : b.showFault wd message = .ok (b', notice)) : b.view.receive notice = b'.view := by
  obtain ⟨d, -, hpure⟩ := bind_eq_ok_iff.1 h
  obtain ⟨rfl, rfl⟩ := Prod.mk.inj (pure_eq_ok_iff.1 hpure)
  funext uri
  simp only [View.receive, view, Keyed.get?_set]
  split <;> rfl

/-- A document that is cleared is sent an empty list. -/
theorem view_of_retract {uri : String} {notice : Notice}
    (h : b.retract wd uri = .ok (b', notice)) : b.view.receive notice = b'.view := by
  obtain ⟨key, -, hpure⟩ := bind_eq_ok_iff.1 h
  obtain ⟨rfl, rfl⟩ := Prod.mk.inj (pure_eq_ok_iff.1 hpure)
  funext other
  simp only [View.receive, view, Keyed.get?_erase]
  split <;> rfl

/-! ### Calls -/

/-- A change of the board. -/
inductive Call
  | report (report : Report) (documents : List Source)
  | fault (message : Message)
  | retract (uri : String)

/-- The board after a change, and the lists that the change sends, in order. -/
def Call.apply (wd : Path) (b : Board) : Call → Except Refusal (Board × List Notice)
  | report r documents =>
    (b.showReport wd r documents).map fun (b', current, stale) => (b', current ++ stale)
  | fault message => (b.showFault wd message).map fun (b', notice) => (b', [notice])
  | retract uri => (b.retract wd uri).map fun (b', notice) => (b', [notice])

/-- An editor that shows what the board holds, and receives what a change sends, shows what the
board holds after the change. -/
theorem Call.view_of_apply {call : Call} {ns : List Notice}
    (h : call.apply wd b = .ok (b', ns)) : b.view.receiveAll ns = b'.view := by
  cases call with
  | report report documents =>
      obtain ⟨⟨b₁, current, stale⟩, hshow, heq⟩ := map_eq_ok_iff.1 h
      obtain ⟨rfl, rfl⟩ := Prod.mk.inj heq
      exact view_of_showReport hshow
  | fault message =>
      obtain ⟨⟨b₁, notice⟩, hshow, heq⟩ := map_eq_ok_iff.1 h
      obtain ⟨rfl, rfl⟩ := Prod.mk.inj heq
      exact view_of_showFault hshow
  | retract uri =>
      obtain ⟨⟨b₁, notice⟩, hretract, heq⟩ := map_eq_ok_iff.1 h
      obtain ⟨rfl, rfl⟩ := Prod.mk.inj heq
      exact view_of_retract hretract

end Board

end Npl
