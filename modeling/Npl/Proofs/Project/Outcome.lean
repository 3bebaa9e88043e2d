import Npl.Proofs.Display
import Npl.Proofs.Program.Pointing
import Npl.Proofs.Project.Alike
import Npl.Proofs.Project.Respects

/-!
# Outcomes of recompiling

Recompiling comes down to this: nothing but the journal goes on, or the compiler comes to an outcome
about the documents of the workspace, and that is taken over. The compiler of this library always
comes to an outcome, and it is about the sources that it was given.

## Main definitions

* `Project.Mute` — only the journal has gone on, and no list was sent.
* `Project.Compiles` — the compiler comes to an outcome about the documents of the workspace.
* `Project.Taking` — what recompiling comes to.

## Main results

* `Project.taking_of_recompile` — recompiling does nothing, or takes over an outcome.
* `Project.Compiles.about` — an outcome is about the sources.
-/

namespace Npl.Project

open Npl.Project.Action

variable {e : Surroundings} {p q : Project}

/-! ### Nothing but the journal -/

/-- Only the journal has gone on, and no list was sent. -/
structure Mute (p q : Project) : Prop where
  same : q = { p with display.connection := q.display.connection }
  client : q.display.connection.client = p.display.connection.client
  notices : q.display.connection.notices = p.display.connection.notices

instance : IsPreorder Project Mute where
  refl _ := ⟨rfl, rfl, rfl⟩
  trans _ _ _ h h' :=
    ⟨by rw [h'.same, h.same], h'.client.trans h.client, h'.notices.trans h.notices⟩

theorem mute_log (r : LogRecord) : Respects Mute (log r) :=
  .modifies fun _ => ⟨rfl, Connection.client_log _ _, Connection.notices_log _ _⟩

theorem mute_runCompiler (sources : List Source) : Respects Mute (runCompiler e sources) := by
  refine .bind (.modifies fun p => ⟨rfl, rfl, ?_⟩) fun _ => .bind (.forM mute_log _) fun _ => .pure _
  rw [Connection.notices_note]
  exact List.append_nil _

/-! ### Outcomes -/

/-- Takes over an outcome about documents. -/
def takeOutcome (e : Surroundings) (documents : List Source) (noted : Keyed Nat) :
    Outcome → Action Unit
  | .fault message => takeFault e message
  | .finished report => takeReport e report documents noted

/-- The compiler comes to an outcome about the documents of the workspace. -/
structure Compiles (e : Surroundings) (p : Project) (documents : List Source) (outcome : Outcome) :
    Prop where
  inScope : p.candidates e = .ok documents
  some : documents ≠ []
  result : (e.compiler (p.together documents)).result = .ok outcome

namespace Compiles

variable {documents documents' : List Source} {outcome outcome' : Outcome}

theorem of_alike (h : Compiles e p documents outcome) (halike : Alike p q) :
    Compiles e q documents outcome :=
  ⟨halike.candidates.trans h.inScope, h.some, by rw [halike.together, h.result]⟩

/-- There is one outcome only. -/
theorem unique (h : Compiles e p documents outcome) (h' : Compiles e p documents' outcome') :
    documents = documents' ∧ outcome = outcome' := by
  obtain rfl := Except.ok.inj (h.inScope.symm.trans h'.inScope)
  exact ⟨rfl, Except.ok.inj (h.result.symm.trans h'.result)⟩

end Compiles

/-- What recompiling comes to. -/
inductive Taking (e : Surroundings) (p : Project) :
    Except Refusal (Option Outcome) → Project → Prop
  /-- Nothing was done, or the compiler did not come to an outcome. It is refused only because it
  cannot be told which documents belong to the workspace. -/
  | idle {x : Except Refusal (Option Outcome)} {q : Project} (hmute : Mute p q)
      (hidle : q = p ∨ ∀ documents outcome, ¬ Compiles e p documents outcome)
      (hrefused : ∀ r, x = .error r → p.candidates e = .error r) : Taking e p x q
  /-- The compiler came to an outcome, and that was taken over. -/
  | takes {documents : List Source} {outcome : Outcome} {mid q : Project} {y : Except Refusal Unit}
      (hcompiles : Compiles e p documents outcome) (hmute : Mute p mid)
      (hran : Ran (p.together documents) p q)
      (htake : Ends (takeOutcome e documents p.documents.dirty outcome) mid y q) :
      Taking e p (y.map fun _ => some outcome) q

/-- Recompiling does nothing, or the compiler comes to an outcome and that is taken over. -/
theorem taking_of_recompile {x : Except Refusal (Option Outcome)} (h : Ends (recompile e) p x q) :
    Taking e p x q := by
  unfold recompile at h
  rw [ends_get_bind_iff] at h
  split at h
  · obtain ⟨rfl, rfl⟩ := ends_pure_iff.1 h
    exact .idle (refl_of Mute _) (.inl rfl) (by simp)
  unfold say at h
  rw [ends_answer_bind_iff] at h
  rcases h with ⟨r, hrefused, rfl, rfl⟩ | ⟨documents, hdocuments, h⟩
  · exact .idle (refl_of Mute _) (.inl rfl) fun r' hr' => by rw [hrefused, Except.error.inj hr']
  split at h
  · next hempty =>
      obtain rfl := List.isEmpty_iff.1 hempty
      rw [ends_log_bind_iff] at h
      obtain ⟨rfl, rfl⟩ := ends_pure_iff.1 h
      refine .idle ((mute_log _).related (ends_log_iff.2 ⟨rfl, rfl⟩)) (.inr ?_) (by simp)
      exact fun documents outcome hcompiles =>
        hcompiles.some (Except.ok.inj (hcompiles.inScope.symm.trans hdocuments))
  next hne =>
  have hne : documents ≠ [] := by simpa using hne
  rw [ends_log_bind_iff, ends_bind_iff] at h
  rcases h with ⟨r, hr, -⟩ | ⟨result, mid, hrun, h⟩
  · exact absurd (ends_runCompiler hr).1 (by simp)
  obtain ⟨hresult, -, hran⟩ := ends_runCompiler hrun
  obtain rfl := Except.ok.inj hresult
  have hran := hran.of_logged (.log p _)
  have hmute : Mute p mid :=
    trans_of Mute ((mute_log _).related (ends_log_iff.2 ⟨rfl, rfl⟩))
      ((mute_runCompiler _).related hrun)
  split at h
  · next cause hcause =>
      rw [ends_log_bind_iff] at h
      obtain ⟨rfl, rfl⟩ := ends_pure_iff.1 h
      refine .idle (trans_of Mute hmute ((mute_log _).related (ends_log_iff.2 ⟨rfl, rfl⟩)))
        (.inr ?_) (by simp)
      intro documents' outcome hcompiles
      obtain rfl := Except.ok.inj (hcompiles.inScope.symm.trans hdocuments)
      exact absurd (hcompiles.result.symm.trans hcause) (by simp)
  · next message hmessage =>
      obtain ⟨y, htake, rfl⟩ := ends_bind_pure_iff.1 h
      exact .takes ⟨hdocuments, hne, hmessage⟩ hmute (hran.trans (ends_takeFault htake).journal)
        htake
  · next report hreport =>
      obtain ⟨y, htake, rfl⟩ := ends_bind_pure_iff.1 h
      exact .takes ⟨hdocuments, hne, hreport⟩ hmute (hran.trans (ends_takeReport htake).journal)
        htake

/-! ### The compiler of this library -/

/-- Whatever the compiler of this library tells is about one of the sources. -/
theorem Compiles.about {disk : Disk} {documents : List Source} {outcome : Outcome}
    (h : Compiles ⟨disk, .standard⟩ p documents outcome) :
    ∀ m ∈ outcome.messages, ∃ s ∈ p.together documents, m.About s := by
  intro m hm
  have houtcome : compile (p.together documents) = outcome := Except.ok.inj h.result
  exact Outcome.about_of_mem_messages (houtcome ▸ hm)

end Npl.Project
