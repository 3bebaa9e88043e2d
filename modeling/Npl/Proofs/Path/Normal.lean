import Npl.Path.Basic
import Npl.Proofs.Text.Pieces

/-!
# Normal paths

A path is normal if its components are names as reading gives them: not empty, no single dot, and
without a slash. Reading always gives a normal path, and a normal path is what its text is read as.

## Main definitions

* `Path.IsName`, `Path.Normal` — the components that reading gives, and the paths made of them.

## Main results

* `Path.normal_ofText` — reading gives normal paths.
* `Path.ofText_text` — a normal path is what its text is read as.
-/

namespace Npl.Path

open Text (pieces)

/-- A component as reading gives it. -/
structure IsName (w : String) : Prop where
  nonempty : w.toList ≠ []
  dotless : w.toList ≠ ['.']
  slashless : '/' ∉ w.toList

instance (w : String) : Decidable (IsName w) :=
  decidable_of_iff (w.toList ≠ [] ∧ w.toList ≠ ['.'] ∧ '/' ∉ w.toList)
    ⟨fun ⟨nonempty, dotless, slashless⟩ => ⟨nonempty, dotless, slashless⟩,
      fun h => ⟨h.nonempty, h.dotless, h.slashless⟩⟩

/-- A path whose components are names. -/
def Normal (p : Path) : Prop :=
  ∀ w ∈ p.parts, IsName w

instance (p : Path) : Decidable p.Normal :=
  inferInstanceAs (Decidable (∀ w ∈ p.parts, IsName w))

/-- The components of a text are names. -/
theorem isName_of_mem_partsOf {cs : List Char} {w : String} (h : w ∈ partsOf cs) : IsName w := by
  obtain ⟨v, hv, rfl⟩ := List.mem_map.1 h
  obtain ⟨hpiece, hkept⟩ := List.mem_filter.1 hv
  simp only [decide_eq_true_eq] at hkept
  refine ⟨?_, ?_, ?_⟩ <;> rw [String.toList_ofList]
  · exact hkept.1
  · exact hkept.2
  · exact Text.not_mem_of_mem_pieces hpiece

/-- Reading gives normal paths. -/
theorem normal_ofText (s : String) : (ofText s).Normal :=
  fun _ hw => isName_of_mem_partsOf hw

theorem Normal.join {p q : Path} (hp : p.Normal) (hq : q.Normal) : (p.join q).Normal := by
  unfold Path.join
  split
  · exact hq
  · intro w hw
    rcases List.mem_append.1 hw with hw | hw
    · exact hp w hw
    · exact hq w hw

theorem Normal.below {p : Path} (hp : p.Normal) {names : List String}
    (hnames : ∀ w ∈ names, IsName w) : (p.below names).Normal := by
  intro w hw
  rcases List.mem_append.1 hw with hw | hw
  · exact hp w hw
  · exact hnames w hw

/-! ### Reading back -/

/-- The characters of the components with slashes between them. -/
def joined (parts : List String) : List Char :=
  List.intercalate ['/'] (parts.map String.toList)

/-- Names with slashes between them are read as these names. -/
theorem partsOf_joined {parts : List String} (h : ∀ w ∈ parts, IsName w) :
    partsOf (joined parts) = parts := by
  cases parts with
  | nil => rfl
  | cons v vs =>
      have hpieces : pieces '/' (joined (v :: vs)) = (v :: vs).map String.toList := by
        refine Text.pieces_intercalate ?_ (by simp)
        intro w hw
        obtain ⟨u, hu, rfl⟩ := List.mem_map.1 hw
        exact (h u hu).slashless
      have hkept : ((v :: vs).map String.toList).filter (fun w => w ≠ [] ∧ w ≠ ['.']) =
          (v :: vs).map String.toList := by
        rw [List.filter_eq_self]
        intro w hw
        obtain ⟨u, hu, rfl⟩ := List.mem_map.1 hw
        exact decide_eq_true ⟨(h u hu).nonempty, (h u hu).dotless⟩
      rw [partsOf, hpieces, hkept, List.map_map]
      simp

/-- Names with slashes between them do not start with a slash. -/
theorem takeWhile_joined {parts : List String} (h : ∀ w ∈ parts, IsName w) :
    (joined parts).takeWhile (· = '/') = [] := by
  cases parts with
  | nil => rfl
  | cons v vs =>
      have hv := h v List.mem_cons_self
      have hcons : ∃ c cs, joined (v :: vs) = c :: cs ∧ c ≠ '/' := by
        cases hlist : v.toList with
        | nil => exact absurd hlist hv.nonempty
        | cons c cs =>
            have hc : c ≠ '/' := by
              rintro rfl
              exact hv.slashless (by rw [hlist]; exact List.mem_cons_self)
            cases vs with
            | nil => exact ⟨c, cs, by simp [joined, hlist], hc⟩
            | cons u us => exact ⟨c, _, by simp [joined, hlist]; rfl, hc⟩
      obtain ⟨c, cs, hcons, hc⟩ := hcons
      rw [hcons, List.takeWhile_cons, if_neg (by simpa using hc)]

/-- An empty piece is no component. -/
theorem partsOf_cons_slash (cs : List Char) : partsOf ('/' :: cs) = partsOf cs := by
  simp [partsOf, pieces]

/-- The characters of a path: the slashes of its root, and its components. -/
theorem toList_text (p : Path) :
    p.text.toList = p.root.text.toList ++ joined p.parts ∨
      p = ⟨.relative, []⟩ ∧ p.text.toList = ['.'] := by
  obtain ⟨root, parts⟩ := p
  cases root with
  | relative =>
      cases parts with
      | nil => exact .inr ⟨rfl, rfl⟩
      | cons v vs => exact .inl (by simp [text, joined, String.toList_intercalate])
  | single => exact .inl (by simp [text, joined, String.toList_intercalate])
  | double => exact .inl (by simp [text, joined, String.toList_intercalate])

/-- A normal path is what its text is read as. -/
theorem ofText_text {p : Path} (h : p.Normal) : ofText p.text = p := by
  rcases toList_text p with htext | ⟨rfl, htext⟩
  · obtain ⟨root, parts⟩ := p
    have hslash := takeWhile_joined h
    have hparts := partsOf_joined h
    simp only [ofText, htext]
    cases root with
    | relative => simp [Root.text, rootOf, hslash, hparts]
    | single => simp [Root.text, rootOf, hslash, hparts, partsOf_cons_slash]
    | double => simp [Root.text, rootOf, hslash, hparts, partsOf_cons_slash]
  · rfl

/-- The text of an absolute path starts with a slash. -/
theorem toList_text_of_isAbsolute {p : Path} (h : p.isAbsolute = true) :
    ∃ cs, p.text.toList = '/' :: cs := by
  rcases toList_text p with htext | ⟨rfl, -⟩
  · obtain ⟨root, parts⟩ := p
    cases root with
    | relative => simp [isAbsolute] at h
    | single => exact ⟨joined parts, by simpa [Root.text] using htext⟩
    | double => exact ⟨'/' :: joined parts, by simpa [Root.text] using htext⟩
  · simp [isAbsolute] at h

/-! ### Absolute paths -/

theorem isAbsolute_join {p : Path} (hp : p.isAbsolute = true) (q : Path) :
    (p.join q).isAbsolute = true := by
  unfold join
  split
  · assumption
  · exact hp

/-- Seen from anywhere, an absolute path is itself. -/
theorem join_of_isAbsolute (p : Path) {q : Path} (hq : q.isAbsolute = true) : p.join q = q := by
  rw [join, if_pos hq]

end Npl.Path
