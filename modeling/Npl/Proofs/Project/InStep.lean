import Npl.Proofs.Project.Parts
import Npl.Proofs.Project.Publication

/-!
# Actions keep the editor in step

Whatever an action does, the editor shows what the board holds afterwards if it did so before, also
if the action is refused half-way. For what is shown changes by reports, by faults and by clearing
documents only, and each of these sends what it changes.

## Main definitions

* `Project.Action.InStep` — an action that leaves the editor in step.

## Main results

* `Project.inStep_operation` — what an editor asks for leaves it in step.
-/

namespace Npl

open Project.Action (Ends)

/-- What concerns neither the lists sent nor the board leaves the editor in step. -/
theorem Board.Faithful.of_same {client : Client} {p q : Project} (h : Board.Faithful client p)
    (hboard : q.display.board = p.display.board)
    (hclient : q.display.connection.client = p.display.connection.client)
    (hnotices : q.display.connection.notices = p.display.connection.notices) :
    Board.Faithful client q :=
  ⟨hclient.trans h.client, h.mirrored.of_same hboard hclient hnotices, hboard ▸ h.nodup⟩

namespace Project

open Npl.Project.Action

variable {client : Client} {e : Surroundings}

namespace Action

variable {α : Type}

/-- Being in step afterwards if one was before. -/
instance isPreorder_inStep (client : Client) :
    IsPreorder Project fun p q => Board.Faithful client p → Board.Faithful client q where
  refl _ := id
  trans _ _ _ h h' := h' ∘ h

/-- The action leaves the editor in step. -/
def InStep (client : Client) (a : Action α) : Prop :=
  Respects (fun p q => Board.Faithful client p → Board.Faithful client q) a

namespace InStep

theorem keeps {a : Action α} {p q : Project} {x : Except Refusal α} (h : Ends a p x q)
    (hp : Board.Faithful client p) (ha : InStep client a) : Board.Faithful client q :=
  ha p x q h hp

end InStep

end Action

theorem inStep_log (r : LogRecord) : InStep client (log r) := by
  refine Respects.modifies fun p hp => ?_
  exact hp.of_same rfl (Connection.client_log _ _) (Connection.notices_log _ _)

/-- Changing what is shown. -/
theorem inStep_act (call : Board.Call) : InStep client (call.act e) :=
  fun _ _ _ h hp => hp.act h

/-! ### Recompiling -/

theorem inStep_runCompiler (sources : List Source) : InStep client (runCompiler e sources) := by
  refine .bind (.modifies fun p hp => ?_) fun _ => .bind (.forM inStep_log _) fun _ => .pure _
  refine hp.of_same rfl rfl ?_
  rw [Connection.notices_note]
  exact List.append_nil _

theorem inStep_takeFault (message : Message) : InStep client (takeFault e message) := by
  refine .bind .get fun p => .bind (.answer _) fun inside => ?_
  split
  · exact .bind (inStep_log _) fun _ => inStep_act (.fault message)
  · exact inStep_log _

theorem inStep_takeReport (report : Report) (documents : List Source) (noted : Keyed Nat) :
    InStep client (takeReport e report documents noted) :=
  .bind (.modifies fun _ hp => hp.of_same rfl rfl rfl) fun _ =>
    inStep_act (.report report documents)

theorem inStep_recompile : InStep client (recompile e) := by
  refine .bind .get fun p => ?_
  split
  · exact .pure _
  refine .bind (.answer _) fun documents => ?_
  split
  · exact .bind (inStep_log _) fun _ => .pure _
  refine .bind (inStep_log _) fun _ => .bind (inStep_runCompiler _) fun result => ?_
  rcases result with cause | (report | message)
  · exact .bind (inStep_log _) fun _ => .pure _
  · exact .bind (inStep_takeReport _ _ _) fun _ => .pure _
  · exact .bind (inStep_takeFault _) fun _ => .pure _

/-! ### Operations -/

theorem inStep_forget (uri : String) : InStep client (forget e uri) := by
  intro p x q h hp
  rcases forget_cases h with ⟨-, -, -, rfl⟩ | ⟨key, -, -, rfl⟩
  · exact hp
  · exact hp.of_same rfl rfl rfl

theorem inStep_retract (uri : String) : InStep client (retract e uri) :=
  inStep_act (.retract uri)

/-- What an operation is made of leaves the editor in step. -/
theorem inStep_parts (client : Client) (e : Surroundings) (op : Operation) :
    op.Parts e fun p q => Board.Faithful client p → Board.Faithful client q where
  log := inStep_log
  forget := inStep_forget
  retract := inStep_retract
  recompile := inStep_recompile
  text := fun _ _ _ _ _ _ _ _ hp => hp.of_same rfl rfl rfl
  roots := fun _ _ _ hp => hp.of_same rfl rfl rfl
  found := fun _ _ _ _ _ _ hp => hp.of_same rfl rfl rfl
  libraries := fun _ _ _ _ _ _ hp => hp.of_same rfl rfl rfl

theorem inStep_operation (op : Operation) : InStep client (op.act e) :=
  (inStep_parts client e op).respects

theorem inStep_remove (uri : String) : InStep client (remove e uri) :=
  inStep_operation (.remove uri)

theorem inStep_update (uri content : String) (compileNow : Bool) :
    InStep client (update e uri content compileNow) :=
  (inStep_parts client e (.update uri content compileNow)).update

theorem inStep_close (uri : String) : InStep client (close e uri) :=
  (inStep_parts client e (.close uri)).close uri

end Project

end Npl
