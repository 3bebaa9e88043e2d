import Npl.Proofs.Project.Alike
import Npl.Proofs.Project.Parts

/-!
# Where texts come from

The text of a document is set in two ways only: the editor sends it, and the document belongs to the
workspace, or the whole workspace is loaded from the disk. Everything else that happens to a project
only sheds documents: some may go, but none comes, and those that stay keep their texts.

## Main definitions

* `Project.Sheds` — the documents of a project are documents that were there before.
* `Project.Intake` — what comes to the documents.
* `Project.textIntake`, `Project.filesIntake` — what comes from the editor and from the disk.

## Main results

* `Project.sheds_recompile`, `Project.sheds_remove`, `Project.sheds_setRoots` — documents may go.
* `Project.sheds_of_update`, `Project.sheds_of_load` — what is left of what came.
-/

namespace Npl.Project

open Npl.Project.Action

variable {e : Surroundings} {p q : Project}

/-- All documents of the second project are documents of the first one, with the same texts. -/
def Sheds (p q : Project) : Prop :=
  ∀ key s, q.documents.sources.get? key = some s → p.documents.sources.get? key = some s

instance : IsPreorder Project Sheds where
  refl _ _ _ h := h
  trans _ _ _ h h' key s hs := h key s (h' key s hs)

theorem Sheds.of_sources (h : q.documents.sources = p.documents.sources) : Sheds p q := by
  intro key s hs
  rw [← h]
  exact hs

theorem Logged.sheds (h : Logged p q) : Sheds p q :=
  .of_sources (by rw [h.documents])

/-! ### Documents that go -/

theorem sheds_log (r : LogRecord) : Respects Sheds (log r) :=
  .log (fun _ _ h => h.sheds) r

/-- Recompiling leaves the documents alone. -/
theorem sheds_recompile : Respects Sheds (recompile e) :=
  fun _ _ _ h => .of_sources (alike_of_recompile h).sources

theorem sheds_forget (uri : String) : Respects Sheds (forget e uri) := by
  intro p x q h
  rcases forget_cases h with ⟨-, -, -, rfl⟩ | ⟨key, -, -, rfl⟩
  · exact refl_of Sheds _
  · intro other s hs
    change (p.documents.sources.erase key).get? other = some s at hs
    rw [Keyed.get?_erase] at hs
    split at hs
    · simp at hs
    · exact hs

theorem sheds_retract (uri : String) : Respects Sheds (retract e uri) := by
  intro p x q h
  rcases retract_cases h with ⟨-, -, -, rfl⟩ | ⟨key, -, -, hq, -⟩
  · exact refl_of Sheds _
  · exact .of_sources (by rw [hq])

/-- What an operation is made of lets documents go only, unless the operation brings texts. -/
theorem sheds_parts (e : Surroundings) (op : Operation)
    (hno : ∀ uri content compileNow, op ≠ .update uri content compileNow)
    (hno' : ∀ uris references, op ≠ .load uris references) : op.Parts e Sheds where
  log := sheds_log
  forget := sheds_forget
  retract := sheds_retract
  recompile := sheds_recompile
  text := fun uri content compileNow h => absurd h (hno uri content compileNow)
  roots := fun _ _ _ => .of_sources rfl
  found := fun uris references h => absurd h (hno' uris references)
  libraries := fun uris references h => absurd h (hno' uris references)

theorem sheds_remove (uri : String) : Respects Sheds (remove e uri) :=
  (sheds_parts e (.remove uri) (by simp) (by simp)).respects

theorem sheds_dropOutside (uri : String) : Respects Sheds (dropOutside e uri) :=
  (sheds_parts e .recompile (by simp) (by simp)).dropOutside uri

theorem sheds_close (uri : String) : Respects Sheds (close e uri) :=
  (sheds_parts e (.close uri) (by simp) (by simp)).close uri

/-- Other roots bring no documents. -/
theorem sheds_setRoots (uris : List String) : Respects Sheds (setRoots e uris) :=
  (sheds_parts e (.setRoots uris) (by simp) (by simp)).respects

/-! ### Documents that come -/

/-- What comes to the documents. -/
inductive Intake
  | nothing
  /-- The editor sent a text for the document at a path. It is taken over or not. -/
  | text (path : Path) (content : String) (taken : Bool)
  /-- These sources were found on the disk, and they are to take the place of all documents. -/
  | files (found : List Source)

/-- The documents with what comes to them. -/
def Intake.apply (wd : Path) (d : Documents) : Intake → Documents
  | nothing | text _ _ false => d
  | text path content true => d.put (path.toUri wd) ⟨path.toUri wd, path, content, false⟩
  | files found => (d.replaceAll wd found).1

/-- What comes when the editor sends a text. It is taken over if it is one of a source file of the
workspace. -/
def textIntake (e : Surroundings) (p : Project) (uri content : String) : Intake :=
  match Path.ofUri uri with
  | .error _ => .nothing
  | .ok path => .text path content (path.isSource && isYes (p.workspace.contains e.disk path))

/-- What comes when the workspace is loaded: nothing if that is refused because something cannot be
gathered. -/
def filesIntake (e : Surroundings) (uris references : List String) : Intake :=
  match (gather e.disk (rootsOf uris) references).1 with
  | .error _ => .nothing
  | .ok (sources, _) => .files sources

/-- The project with what comes to its documents. -/
def receive (e : Surroundings) (p : Project) (i : Intake) : Project :=
  { p with documents := i.apply e.disk.workingPath p.documents }

/-- Writing to the log before something comes does not matter. -/
theorem Logged.sheds_receive {mid : Project} (h : Logged p mid) {i : Intake}
    (hq : Sheds (mid.receive e i) q) : Sheds (p.receive e i) q := by
  have hsame : (mid.receive e i).documents = (p.receive e i).documents := by
    rw [receive, h.documents, receive]
  rw [Sheds, ← hsame]
  exact hq

/-- Behind a text of the editor there is the text, as far as it is taken over, and documents may
have gone. -/
theorem sheds_of_update {uri content : String} {compileNow : Bool} {x : Except Refusal Bool}
    (h : Ends (update e uri content compileNow) p x q) :
    Sheds (p.receive e (textIntake e p uri content)) q := by
  unfold update at h
  split at h
  · next r hr =>
      simp only [textIntake, hr]
      exact Respects.bind (sheds_log _) (fun _ => .pure _) _ _ _ h
  next path hpath =>
    simp only [textIntake, hpath]
    split at h
    · next hsource =>
        have hsource : path.isSource = false := by simpa using hsource
        rw [hsource, Bool.false_and]
        exact Respects.pure _ _ _ _ h
    next hsource =>
      have hsource : path.isSource = true := by simpa using hsource
      rw [hsource, Bool.true_and]
      rw [ends_get_bind_iff, ends_answer_bind_iff] at h
      rcases h with ⟨r, hr, -, rfl⟩ | ⟨inside, hinside, h⟩
      · rw [hr]
        exact refl_of Sheds q
      rw [hinside]
      split at h
      · next htaken =>
          subst htaken
          unfold onDocuments at h
          rw [ends_modify_bind_iff] at h
          simp only [Documents.update_of_isSource hpath hsource] at h
          split at h
          · exact Respects.bind sheds_recompile.discard (fun _ => .pure _) _ _ _ h
          · exact Respects.pure _ _ _ _ h
      · next hout =>
          obtain rfl : inside = false := by simpa using hout
          exact Respects.bind (sheds_dropOutside uri) (fun _ => .pure _) _ _ _ h

/-- Behind a load there are the sources that it found, unless it was refused, and documents may have
gone. -/
theorem sheds_of_load {uris references : List String} {x : Except Refusal Unit}
    (h : Ends (load e uris references) p x q) :
    Sheds (p.receive e (filesIntake e uris references)) q := by
  rcases load_cases h with ⟨r, hr, -, hlogged⟩ | ⟨sources, libraries, mid, hgathered, -, h⟩
  · simp only [filesIntake, hr]
    exact hlogged.sheds
  · have hfinish : ∀ vanished, Respects Sheds (finishLoad e libraries vanished) := fun vanished =>
      .bind (.answer _) fun _ => .bind (.modifies fun _ => .of_sources rfl) fun _ =>
        .bind (.forM sheds_retract _) fun _ => sheds_recompile.discard
    have hq := hfinish _ _ _ _ h
    simp only [filesIntake, hgathered]
    exact hq

end Npl.Project
