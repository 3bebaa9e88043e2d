import Npl.Proofs.Project.Placed

/-!
# Canonical documents

A document is canonical if its URI is the canonical one of its location. That is less than being
placed: its path may have null characters. All documents of a project are canonical.

## Main definitions

* `Source.Canonical`, `Documents.Canonical` — canonical documents.

## Main results

* `canonical_of_mem_discover` — what is found on the disk is canonical.
* `Documents.Canonical.putAll`, `Documents.Canonical.content_putAll` — adding what is found.
-/

namespace Npl

/-! ### Sources -/

/-- A source whose URI is the canonical one of its location. -/
structure Source.Canonical (wd : Path) (s : Source) : Prop where
  named : s.uri = s.location.toUri wd
  normal : s.location.Normal

variable {disk : Disk}

/-- The URI of a canonical source is its own canonical spelling. -/
theorem Source.Canonical.eq (hd : disk.Sane) {s : Source} (h : s.Canonical disk.workingPath) :
    canonicalUri disk.workingPath s.uri = .ok s.uri := by
  rw [h.named]
  exact canonicalUri_toUri rfl hd.normal_workingPath h.normal

/-- What is found on the disk is canonical. -/
theorem canonical_of_mem_discover (hd : disk.Sane) {roots : List Path}
    (hroots : ∀ root ∈ roots, root.Normal) {sources : List Source}
    (h : (discover disk roots).1 = .ok sources) {s : Source} (hs : s ∈ sources) :
    s.Canonical disk.workingPath := by
  obtain ⟨huri, root, hroot, names, hnames, hlocation⟩ := location_of_mem_discover hd h hs
  refine ⟨huri, ?_⟩
  rw [hlocation]
  exact (hroots root hroot).below fun w hw => (hnames w hw).1

/-! ### Documents -/

namespace Documents

/-- Documents all of which are canonical. -/
def Canonical (wd : Path) (d : Documents) : Prop :=
  ∀ e ∈ d.sources.entries, e.2.Canonical wd

theorem Canonical.put {wd : Path} {d : Documents} (h : d.Canonical wd) {key : String} {s : Source}
    (hs : Source.Canonical wd { s with uri := key }) : (d.put key s).Canonical wd := by
  intro e he
  rcases Keyed.mem_of_mem_set he with rfl | hold
  · exact hs
  · exact h e hold

theorem Canonical.removeKey {wd : Path} {d : Documents} (h : d.Canonical wd) (key : String) :
    (d.removeKey key).1.Canonical wd :=
  fun e he => h e (Keyed.mem_of_mem_erase he).1

/-- Adding canonical sources keeps documents canonical. -/
theorem Canonical.putAll (hd : disk.Sane) {d : Documents} (h : d.Canonical disk.workingPath)
    {ss : List Source} (hss : ∀ s ∈ ss, s.Canonical disk.workingPath) :
    (d.putAll disk.workingPath ss).2 = .ok () ∧
      (d.putAll disk.workingPath ss).1.Canonical disk.workingPath := by
  induction ss generalizing d with
  | nil => exact ⟨rfl, h⟩
  | cons s ss ih =>
      have hs := hss s List.mem_cons_self
      have hsame : ({ s with uri := s.uri } : Source).Canonical disk.workingPath := hs
      rw [Documents.putAll, hs.eq hd]
      exact ih (h.put hsame) fun t ht => hss t (List.mem_cons_of_mem _ ht)

/-- Behind canonical sources that are added, each document has the text of the last source with its
URI, or the text that it had. -/
theorem Canonical.content_putAll (hd : disk.Sane) {d : Documents} {ss : List Source}
    (hss : ∀ s ∈ ss, s.Canonical disk.workingPath) {texts : Keyed String} {key : String}
    (htexts : (d.sources.get? key).map Source.content = texts.get? key) :
    ((d.putAll disk.workingPath ss).1.sources.get? key).map Source.content =
      ((ss.map fun s => (s.uri, s.content)).foldl (fun m e => m.set e.1 e.2) texts).get? key := by
  induction ss generalizing d texts with
  | nil => exact htexts
  | cons s ss ih =>
      rw [Documents.putAll, (hss s List.mem_cons_self).eq hd]
      refine ih (fun t ht => hss t (List.mem_cons_of_mem _ ht)) ?_
      simp only [Documents.put, Documents.touch, Keyed.get?_set]
      split
      · rfl
      · exact htexts

/-- If canonical sources replace all documents, those vanish that are not among them. -/
theorem vanished_replaceAll (hd : disk.Sane) (d : Documents) {sources : List Source}
    (hsources : ∀ s ∈ sources, s.Canonical disk.workingPath) :
    (d.replaceAll disk.workingPath sources).2 = .ok (d.sources.keys.filter fun key =>
      !(d.replaceAll disk.workingPath sources).1.sources.contains key) := by
  have hput := (Canonical.putAll hd (d := { d with sources := .empty, dirty := .empty })
    (by simp [Canonical, Keyed.empty]) hsources).1
  simp only [replaceAll, hput]
  rfl

theorem mem_vanished (hd : disk.Sane) {d : Documents} {sources : List Source}
    (hsources : ∀ s ∈ sources, s.Canonical disk.workingPath) {vanished : List String}
    (h : (d.replaceAll disk.workingPath sources).2 = .ok vanished) {key : String} :
    key ∈ vanished ↔ key ∈ d.sources.keys ∧
      key ∉ (d.replaceAll disk.workingPath sources).1.sources.keys := by
  rw [vanished_replaceAll hd d hsources] at h
  obtain rfl := Except.ok.inj h
  simp [← Keyed.contains_iff]

end Documents

end Npl
