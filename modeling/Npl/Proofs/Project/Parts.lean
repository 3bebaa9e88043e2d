import Npl.Proofs.Project.Operation
import Npl.Proofs.Project.Respects

/-!
# What operations are made of

What an operation is made of is little: forgetting documents, clearing diagnostics, recompiling,
taking over texts, roots and libraries, and writing to the log. What these respect is respected by
the operation.

## Main definitions

* `Project.Operation.Parts` — what an operation is made of respects a relation.

## Main results

* `Project.Operation.Parts.respects` — then the operation respects it.
-/

namespace Npl.Project

open Npl.Project.Action

variable {e : Surroundings} {R : Project → Project → Prop} {op : Operation}

/-- What an operation is made of respects a relation. -/
structure Operation.Parts (e : Surroundings) (R : Project → Project → Prop) (op : Operation) :
    Prop where
  log : ∀ r, Respects R (log r)
  forget : ∀ uri, Respects R (forget e uri)
  retract : ∀ uri, Respects R (retract e uri)
  recompile : Respects R (Project.recompile e)
  text : ∀ uri content compileNow, op = .update uri content compileNow →
    ∀ path, Path.ofUri uri = .ok path → path.isSource = true →
      ∀ p, R p { p with documents := (p.documents.update e.disk.workingPath uri content).1 }
  roots : ∀ uris, op = .setRoots uris → ∀ p, R p { p with workspace := ⟨rootsOf uris⟩ }
  found : ∀ uris references, op = .load uris references → ∀ sources,
    (discover e.disk (rootsOf uris)).1 = .ok sources → ∀ p, R p { p with
      workspace := ⟨rootsOf uris⟩
      documents := (p.documents.replaceAll e.disk.workingPath sources).1 }
  libraries : ∀ uris references, op = .load uris references → ∀ libraries,
    (Library.load e.disk references (rootsOf uris)).1 = .ok libraries →
      ∀ p, R p { p with libraries }

namespace Operation.Parts

variable [IsPreorder Project R]

theorem remove (h : op.Parts e R) (uri : String) : Respects R (Project.remove e uri) :=
  .bind (h.forget uri) fun _ => .bind h.recompile.discard fun _ => h.retract uri

theorem close (h : op.Parts e R) (uri : String) : Respects R (Project.close e uri) := by
  unfold Project.close
  split
  · exact .pure _
  · refine .bind (.answer _) fun there => ?_
    split
    · exact .pure _
    · exact .bind (h.remove uri) fun _ => .pure _

theorem dropOutside (h : op.Parts e R) (uri : String) : Respects R (Project.dropOutside e uri) := by
  refine .bind .get fun p => .bind (.answer _) fun known => ?_
  split
  · exact .bind (h.log _) fun _ => .bind (h.forget uri) fun _ =>
      .bind (h.retract uri) fun _ => h.recompile.discard
  · exact .pure _

theorem update {uri content : String} {compileNow : Bool}
    (h : (Operation.update uri content compileNow).Parts e R) :
    Respects R (Project.update e uri content compileNow) := by
  unfold Project.update
  split
  · exact .bind (h.log _) fun _ => .pure _
  next path hpath =>
    split
    · exact .pure _
    next hsource =>
      refine .bind .get fun p => .bind (.answer _) fun inside => ?_
      split
      · have htext := h.text uri content compileNow rfl path hpath (by simpa using hsource)
        refine .bind (.modifies htext) fun _ => ?_
        split
        · exact .bind h.recompile.discard fun _ => .pure _
        · exact .pure _
      · exact .bind (h.dropOutside uri) fun _ => .pure _

theorem dropLeaving (h : op.Parts e R) (ss : List Source) :
    Respects R (Project.dropLeaving e ss) := by
  induction ss with
  | nil => exact .pure _
  | cons s ss ih =>
      refine .bind .get fun p => .bind (.answer _) fun inside => ?_
      split
      · exact .bind (h.log _) fun _ => .bind (h.forget _) fun _ => .bind (h.retract _) fun _ => ih
      · exact ih

theorem rootPaths (h : op.Parts e R) (uris : List String) :
    Respects R (Project.rootPaths uris) := by
  induction uris with
  | nil => exact .pure _
  | cons uri uris ih =>
      unfold Project.rootPaths
      split
      · exact .bind ih fun _ => .pure _
      · exact .bind (h.log _) fun _ => ih

/-- What comes behind reading roots. -/
theorem rootPaths_bind (h : op.Parts e R) {uris : List String} {f : List Path → Action Unit}
    (hf : Respects R (f (rootsOf uris))) : Respects R (Project.rootPaths uris >>= f) := by
  intro p x q hends
  rcases ends_bind_iff.1 hends with ⟨r, hr, -⟩ | ⟨roots, told, hroots, hrest⟩
  · exact absurd (ends_rootPaths hr).1 (by simp)
  · obtain rfl := Except.ok.inj (ends_rootPaths hroots).1
    exact trans_of R ((h.rootPaths uris).related hroots) (hf.related hrest)

theorem setRoots {uris : List String} (h : (Operation.setRoots uris).Parts e R) :
    Respects R (Project.setRoots e uris) :=
  h.rootPaths_bind <| .bind (.modifies (h.roots uris rfl)) fun _ => .bind .get fun _ =>
    .bind (h.dropLeaving _) fun _ => h.recompile.discard

theorem load {uris references : List String} (h : (Operation.load uris references).Parts e R) :
    Respects R (Project.load e uris references) := by
  refine h.rootPaths_bind <| .bind (.forM h.log _) fun _ => ?_
  intro p x q hends
  rw [ends_answer_bind_iff] at hends
  rcases hends with ⟨r, -, -, rfl⟩ | ⟨⟨sources, libraries⟩, hgathered, hends⟩
  · exact refl_of R _
  obtain ⟨hsources, hloaded⟩ := gather_eq_ok_iff.1 hgathered
  rw [ends_get_bind_iff, ends_set_bind_iff] at hends
  refine trans_of R (h.found uris references rfl sources hsources p) (Respects.related ?_ hends)
  exact .bind (.answer _) fun vanished =>
    .bind (.modifies (h.libraries uris references rfl libraries hloaded)) fun _ =>
      .bind (.forM h.retract _) fun _ => h.recompile.discard

/-- What all parts of an operation respect is respected by the operation, refused or not. -/
theorem respects (h : op.Parts e R) : Respects R (op.act e) := by
  cases op with
  | update uri content compileNow => exact h.update.discard
  | remove uri => exact h.remove uri
  | close uri => exact (h.close uri).discard
  | setRoots uris => exact h.setRoots
  | load uris references => exact h.load
  | recompile => exact h.recompile.discard

end Operation.Parts

end Npl.Project
