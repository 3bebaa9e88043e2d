import Npl.Proofs.Path.Normal
import Npl.Workspace.Basic

/-!
# Belonging to the workspace

Whether a path belongs to the workspace can be told unless a null character gets in the way, in the
path, in a root, or in the target of a link. No disk holds links with such targets, and its entries
have the names that reading a path gives.

## Main definitions

* `Disk.Sane` — a disk as an operating system keeps it.
* `Path.NullFree` — a path without null characters.

## Main results

* `Disk.realPath_ne_nullCharacter` — a path without null characters leads somewhere or nowhere.
* `Workspace.exists_contains` — whether such a path belongs to the workspace can be told.
-/

namespace Npl

/-- A text without null characters. -/
def NullFree (s : String) : Prop :=
  '\x00' ∉ s.toList

instance (s : String) : Decidable (NullFree s) :=
  inferInstanceAs (Decidable ('\x00' ∉ s.toList))

/-- A path whose components have no null characters. -/
def Path.NullFree (p : Path) : Prop :=
  ∀ w ∈ p.parts, Npl.NullFree w

instance (p : Path) : Decidable p.NullFree :=
  inferInstanceAs (Decidable (∀ w ∈ p.parts, Npl.NullFree w))

/-- A disk as an operating system keeps it: names are as reading a path gives them, and neither they
nor the targets of links have null characters. -/
structure Disk.Sane (d : Disk) : Prop where
  names : ∀ entry ∈ d.entries, ∀ w ∈ entry.1, Path.IsName w ∧ NullFree w
  targets : ∀ l target, (l, Node.link target) ∈ d.entries → NullFree target
  workingDirectory : ∀ w ∈ d.workingDirectory, Path.IsName w

/-! ### Reading -/

/-- The characters of a piece are characters of the text. -/
theorem Text.mem_of_mem_pieces {separator c : Char} {cs w : List Char}
    (h : w ∈ pieces separator cs) (hc : c ∈ w) : c ∈ cs := by
  induction cs generalizing w with
  | nil =>
      obtain rfl := List.mem_singleton.1 h
      exact hc
  | cons d cs ih =>
      rw [pieces] at h
      split at h
      · rcases List.mem_cons.1 h with rfl | htail
        · simp at hc
        · exact List.mem_cons_of_mem _ (ih htail hc)
      · split at h
        · next hnil => exact absurd hnil (pieces_ne_nil separator cs)
        · next v vs hvs =>
            rcases List.mem_cons.1 h with rfl | htail
            · rcases List.mem_cons.1 hc with rfl | hv
              · exact List.mem_cons_self
              · exact List.mem_cons_of_mem _ (ih (by rw [hvs]; exact List.mem_cons_self) hv)
            · exact List.mem_cons_of_mem _
                (ih (by rw [hvs]; exact List.mem_cons_of_mem _ htail) hc)

/-- A target without null characters asks for steps without any. -/
theorem Disk.nullFree_of_mem_steps {target : String} (h : NullFree target) :
    ∀ w ∈ steps target, NullFree w := by
  intro w hw
  obtain ⟨v, hv, rfl⟩ := List.mem_map.1 hw
  rw [NullFree, String.toList_ofList]
  exact fun hnull => h (Text.mem_of_mem_pieces hv hnull)

/-! ### Following -/

namespace Disk

variable {d : Disk}

theorem nullFree_of_node? (hd : d.Sane) {l : Location} {target : String}
    (h : d.node? l = some (.link target)) : NullFree target := by
  unfold node? at h
  split at h
  · simp at h
  · obtain ⟨⟨l', node⟩, hfind, hnode⟩ := Option.map_eq_some_iff.1 h
    obtain rfl := hnode
    exact hd.targets l' target (List.mem_of_find?_eq_some hfind)

/-- Walking along names without null characters meets one behind a link only. -/
theorem walk_ne_nullCharacter {jump : Location → String → Destination}
    (hjump : ∀ l here target, d.node? l = some (.link target) → jump here target ≠ .nullCharacter)
    {here : Location} {names : List String} (hnames : ∀ w ∈ names, NullFree w) :
    d.walk jump here names ≠ .nullCharacter := by
  induction names generalizing here with
  | nil => simp [walk]
  | cons name names ih =>
      have hrest : ∀ w ∈ names, NullFree w := fun w hw => hnames w (List.mem_cons_of_mem _ hw)
      have hname : ¬ name.toList.contains '\x00' := by
        simpa [NullFree] using hnames name List.mem_cons_self
      rw [walk, if_neg hname]
      split
      · exact ih hrest
      split
      · exact ih hrest
      split
      · simp
      · next target hlink =>
          split
          · exact ih hrest
          · simp
          · next hnull => exact absurd hnull (hjump _ here target hlink)
      · exact ih hrest

/-- Following names without null characters never meets one. -/
theorem follow_ne_nullCharacter (hd : d.Sane) (depth : Nat) (here : Location)
    (names : List String) (hnames : ∀ w ∈ names, NullFree w) :
    d.follow depth here names ≠ .nullCharacter := by
  induction depth generalizing here names with
  | zero => exact walk_ne_nullCharacter (fun _ _ _ _ => by simp) hnames
  | succ depth ih =>
      refine walk_ne_nullCharacter ?_ hnames
      intro l here target hlink
      exact ih _ _ (nullFree_of_mem_steps (nullFree_of_node? hd hlink))

/-- A path without null characters leads somewhere or nowhere. -/
theorem realPath_ne_nullCharacter (hd : d.Sane) {p : Path} (hp : p.NullFree) :
    d.realPath p ≠ .nullCharacter :=
  follow_ne_nullCharacter hd _ _ _ hp

end Disk

/-! ### The workspace -/

namespace Workspace

variable {d : Disk} {w : Workspace}

theorem exists_holds (hd : d.Sane) (l : Location) {roots : List Path}
    (hroots : ∀ root ∈ roots, root.NullFree) : ∃ b, holds d l roots = .ok b := by
  induction roots with
  | nil => exact ⟨false, rfl⟩
  | cons root roots ih =>
      have hnull := d.realPath_ne_nullCharacter hd (hroots root List.mem_cons_self)
      have htail := ih fun r hr => hroots r (List.mem_cons_of_mem _ hr)
      rw [holds]
      split
      · split
        · exact ⟨true, rfl⟩
        · exact htail
      · exact htail
      · next h => exact absurd h hnull

/-- Whether a path belongs to the workspace can be told. -/
theorem exists_contains (hd : d.Sane) (hw : ∀ root ∈ w.roots, root.NullFree) {p : Path}
    (hp : p.NullFree) : ∃ b, w.contains d p = .ok b := by
  unfold contains
  split
  · exact ⟨true, rfl⟩
  · split
    · exact exists_holds hd _ hw
    · exact ⟨false, rfl⟩
    · next h => exact absurd h (d.realPath_ne_nullCharacter hd hp)

end Workspace

end Npl
