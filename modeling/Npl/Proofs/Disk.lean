import Mathlib.Data.List.Induction
import Mathlib.Data.List.Lex
import Mathlib.Data.List.Nodup
import Mathlib.Data.String.Basic
import Npl.Proofs.Except
import Npl.Proofs.Workspace

/-!
# The tree of entries

A disk is kept as a list of entries with their locations. What makes a tree of it is that each
location holds one entry, and that the way to each entry leads through directories. Then the entries
below a directory are those that names lead to from there, one directory after the other, and no
link is followed on the way. A path that leads to the directory leads to the entry if these names
are put behind it.

## Main definitions

* `Disk.Tree` — a disk whose entries form a tree.
* `Disk.Within` — names lead from a directory to an entry, through directories only.

## Main results

* `Disk.mem_entriesBelow_iff` — the entries below a directory are those.
* `Disk.pairwise_entriesBelow` — they are ordered by the names that lead to them, without repetition.
* `Disk.find?_below`, `Disk.realPath_below` — where a path leads that goes on with such names.
* `Disk.realPath_join` — where a path leads as seen from the working directory.
-/

namespace Npl

/-! ### The order of components -/

/-- Components are ordered like words in a dictionary. -/
theorem Path.partsLe_iff {p q : List String} : partsLe p q = true ↔ p ≤ q := by
  induction p generalizing q with
  | nil => simp [partsLe, ← not_lt]
  | cons a p ih =>
      cases q with
      | nil => simp [partsLe]
      | cons b q =>
          rw [partsLe, ← not_lt, List.cons_lt_cons_iff]
          split
          · next heq => simp [heq, ih]
          · next hne => simp [Ne.symm hne, lt_iff_le_and_ne, hne]

/-! ### Destinations -/

/-- Where a way goes on from a destination. -/
def Destination.andThen (destination : Destination) (next : Location → Destination) :
    Destination :=
  match destination with
  | .at l => next l
  | .nowhere => .nowhere
  | .nullCharacter => .nullCharacter

namespace Disk

variable {d : Disk}

/-! ### Entries -/

/-- The entries form a tree: each location holds one entry only, and the way to it leads through
directories that may be entered. No entry is named `..`, as that is the way back, and no name is too
long. -/
structure Tree (d : Disk) : Prop where
  distinct : (d.entries.map Prod.fst).Nodup
  parents : ∀ entry ∈ d.entries, entry.1 ≠ [] ∧ d.node? entry.1.dropLast = some .directory
  named : ∀ entry ∈ d.entries, ".." ∉ entry.1 ∧ ∀ w ∈ entry.1, w.utf8ByteSize ≤ nameLimit

/-- An entry is found at its location. -/
theorem node?_eq_some_iff (ht : d.Tree) {l : Location} (hl : l ≠ []) {node : Node} :
    d.node? l = some node ↔ (l, node) ∈ d.entries := by
  rw [node?, if_neg hl, Option.map_eq_some_iff]
  constructor
  · rintro ⟨⟨l', node'⟩, hfind, rfl⟩
    have hsame : l' = l := by simpa using List.find?_some hfind
    exact hsame ▸ List.mem_of_find?_eq_some hfind
  · intro hmem
    have hsome : (d.entries.find? (·.1 = l)).isSome := by
      rw [List.find?_isSome]
      exact ⟨_, hmem, by simp⟩
    obtain ⟨entry, hfind⟩ := Option.isSome_iff_exists.1 hsome
    have hsame : entry.1 = l := by simpa using List.find?_some hfind
    have hentry := List.inj_on_of_nodup_map ht.distinct (List.mem_of_find?_eq_some hfind) hmem hsame
    exact ⟨entry, hfind, by rw [hentry]⟩

/-- The names of an entry are such as entries have. -/
theorem names_of_node? (hd : d.Sane) (ht : d.Tree) {l : Location} {node : Node}
    (h : d.node? l = some node) : ∀ w ∈ l, NullFree w ∧ w ≠ ".." := by
  intro w hw
  have hmem := (node?_eq_some_iff ht (List.ne_nil_of_mem hw)).1 h
  exact ⟨(hd.names _ hmem w hw).2, fun heq => (ht.named _ hmem).1 (heq ▸ hw)⟩

/-- The names of an entry are neither empty nor dots, and not too long. -/
theorem proper_of_node? (hd : d.Sane) (ht : d.Tree) {l : Location} {node : Node}
    (h : d.node? l = some node) : ∀ w ∈ l, ¬ (w = "" ∨ w = ".") ∧ w.utf8ByteSize ≤ nameLimit := by
  intro w hw
  have hmem := (node?_eq_some_iff ht (List.ne_nil_of_mem hw)).1 h
  refine ⟨?_, (ht.named _ hmem).2 w hw⟩
  rintro (rfl | rfl)
  · exact (hd.names _ hmem _ hw).1.nonempty rfl
  · exact (hd.names _ hmem _ hw).1.dotless rfl

/-- What an entry lies in is a directory. -/
theorem node?_dropLast (ht : d.Tree) {l : Location} (hl : l ≠ []) {node : Node}
    (h : d.node? l = some node) : d.node? l.dropLast = some .directory :=
  (ht.parents _ ((node?_eq_some_iff ht hl).1 h)).2

/-! ### Ways through directories -/

/-- The names lead from a directory to an entry through directories only. -/
inductive Within (d : Disk) (top : Location) : List String → Node → Prop
  /-- To an entry of the directory itself. -/
  | child {name : String} {node : Node} (htop : d.node? top = some .directory)
      (hnode : d.node? (top ++ [name]) = some node) : Within d top [name] node
  /-- To an entry of a directory further down. -/
  | deeper {names : List String} {name : String} {node : Node}
      (hnames : Within d top names .directory)
      (hnode : d.node? (top ++ (names ++ [name])) = some node) : Within d top (names ++ [name]) node

namespace Within

variable {top : Location} {names : List String} {node : Node}

theorem ne_nil (h : d.Within top names node) : names ≠ [] := by
  cases h <;> simp

theorem node?_eq (h : d.Within top names node) : d.node? (top ++ names) = some node := by
  cases h with
  | child _ hnode => exact hnode
  | deeper _ hnode => exact hnode

/-- On a tree, every entry below a directory is reached through directories. -/
theorem of_node? (ht : d.Tree) (hnames : names ≠ []) (h : d.node? (top ++ names) = some node) :
    d.Within top names node := by
  induction names using List.reverseRecOn generalizing node with
  | nil => exact absurd rfl hnames
  | append_singleton names name ih =>
      have hparent := node?_dropLast ht (by simp) h
      rw [← List.append_assoc, List.dropLast_concat] at hparent
      by_cases hfirst : names = []
      · subst hfirst
        exact .child (by simpa using hparent) h
      · exact .deeper (ih hfirst hparent) h

end Within

/-- The entries below a directory are those that names lead to through directories. -/
theorem mem_entriesBelow_iff (ht : d.Tree) {top : Location} {names : List String} {node : Node} :
    (names, node) ∈ d.entriesBelow top ↔ d.Within top names node := by
  rw [entriesBelow, List.mem_mergeSort, List.mem_filterMap]
  constructor
  · rintro ⟨⟨l, node'⟩, hentry, hbelow⟩
    obtain ⟨names', hnames, heq⟩ := Option.map_eq_some_iff.1 hbelow
    obtain ⟨rfl, rfl⟩ := Prod.mk.inj heq
    unfold namesBelow? at hnames
    split at hnames
    · next hprefix =>
        obtain ⟨⟨names, rfl⟩, hne⟩ := hprefix
        obtain rfl : names = names' := by simpa using hnames
        have hsome : names ≠ [] := by simpa using hne
        exact .of_node? ht hsome ((node?_eq_some_iff ht (by simp [hsome])).2 hentry)
    · simp at hnames
  · intro h
    have hmem := (node?_eq_some_iff ht (by simp [h.ne_nil])).1 h.node?_eq
    exact ⟨(top ++ names, node), hmem, by simp [namesBelow?, h.ne_nil]⟩

/-- The entries below a directory are ordered by the names that lead to them, and no names lead to
two of them. -/
theorem pairwise_entriesBelow (ht : d.Tree) (top : Location) :
    (d.entriesBelow top).Pairwise fun a b => a.1 < b.1 := by
  have hordered : (d.entriesBelow top).Pairwise fun a b => a.1 ≤ b.1 := by
    refine (List.pairwise_mergeSort ?_ ?_ _).imp fun h => Path.partsLe_iff.1 h
    · exact fun a b c hab hbc =>
        Path.partsLe_iff.2 ((Path.partsLe_iff.1 hab).trans (Path.partsLe_iff.1 hbc))
    · intro a b
      rw [Bool.or_eq_true, Path.partsLe_iff, Path.partsLe_iff]
      exact le_total _ _
  have hdistinct : (d.entriesBelow top).Pairwise fun a b => a.1 ≠ b.1 := by
    refine ((List.mergeSort_perm _ _).pairwise_iff fun h => h.symm).2 ?_
    refine List.Pairwise.filterMap _ ?_ (List.pairwise_map.1 ht.distinct)
    rintro ⟨l, node⟩ ⟨l', node'⟩ hne a ha b hb heq
    obtain ⟨names, hnames, rfl⟩ := Option.map_eq_some_iff.1 ha
    obtain ⟨names', hnames', rfl⟩ := Option.map_eq_some_iff.1 hb
    obtain rfl : names = names' := heq
    have hlocation : ∀ {l}, namesBelow? top l = some names → l = top ++ names := by
      intro l h
      unfold namesBelow? at h
      split at h
      · next hprefix =>
          obtain ⟨⟨rest, rfl⟩, -⟩ := hprefix
          simpa using h
      · simp at h
    exact hne ((hlocation hnames).trans (hlocation hnames').symm)
  exact hordered.imp₂ (fun a b hle hne => lt_of_le_of_ne hle hne) hdistinct

/-- Any arrangement of the entries in that order is the one in which they are listed. -/
theorem entriesBelow_eq (ht : d.Tree) {top : Location} {es : List (List String × Node)}
    (hperm : (d.entries.filterMap fun (l, node) => (namesBelow? top l).map (·, node)).Perm es)
    (hordered : es.Pairwise fun a b => a.1 < b.1) : d.entriesBelow top = es := by
  refine ((List.mergeSort_perm _ _).trans hperm).eq_of_pairwise ?_ (pairwise_entriesBelow ht top)
    hordered
  exact fun a b _ _ hab hba => absurd (lt_trans hab hba) (lt_irrefl _)

/-! ### Following paths -/

section Following

variable {jump : Location → String → Destination} {here : Location} {name : String} {node : Node}

/-- The name of an entry that is no link leads to it. -/
theorem walk_name (hd : d.Sane) (ht : d.Tree) (hname : d.node? (here ++ [name]) = some node)
    (hnode : ∀ target, node ≠ .link target) (names : List String) :
    d.walk jump here (name :: names) = d.walk jump (here ++ [name]) names := by
  obtain ⟨hnull, hback⟩ := names_of_node? hd ht hname name (by simp)
  obtain ⟨hproper, -⟩ := proper_of_node? hd ht hname name (by simp)
  rw [walk, if_neg hproper, if_neg hback, if_neg (by simpa [NullFree] using hnull), hname]
  cases node with
  | link target => exact absurd rfl (hnode target)
  | directory | closed | file => rfl

/-- Steps are followed one part after the other. -/
theorem walk_append (here : Location) (names more : List String) :
    d.walk jump here (names ++ more) =
      (d.walk jump here names).andThen fun there => d.walk jump there more := by
  induction names generalizing here with
  | nil => rfl
  | cons name names ih =>
      rw [List.cons_append, walk, walk]
      split
      · exact ih _
      split
      · exact ih _
      split
      · rfl
      split
      · rfl
      · split
        · exact ih _
        · rfl
        · rfl
      · exact ih _

/-- Steps are followed one part after the other. -/
theorem follow_append (depth : Nat) (here : Location) (names more : List String) :
    d.follow depth here (names ++ more) =
      (d.follow depth here names).andThen fun there => d.follow depth there more := by
  cases depth with
  | zero => exact walk_append here names more
  | succ depth => exact walk_append here names more

/-- The names of a way through directories lead along it, unless its end is a link. -/
theorem Within.follow (hd : d.Sane) (ht : d.Tree) {top : Location} {names : List String} {node : Node}
    (h : d.Within top names node) (hnode : ∀ target, node ≠ .link target) (depth : Nat) :
    d.follow depth top names = .at (top ++ names) := by
  have hstep : ∀ {here : Location} {name : String} {node : Node},
      d.node? (here ++ [name]) = some node → (∀ target, node ≠ .link target) →
        d.follow depth here [name] = .at (here ++ [name]) := by
    intro here name node hname hnode
    cases depth with
    | zero => exact walk_name hd ht hname hnode []
    | succ depth => exact walk_name hd ht hname hnode []
  induction h with
  | child _ hname => exact hstep hname hnode
  | @deeper names name node hnames hname ih =>
      rw [follow_append, ih (by simp), ← List.append_assoc]
      exact hstep (by rwa [List.append_assoc]) hnode

/-- Where a way leads, it leads as well if more is known about the links on it. -/
theorem walk_of_jump {jump' : Location → String → Destination}
    (hjump : ∀ here target l, jump here target = .at l → jump' here target = .at l)
    {here l : Location} {names : List String} (h : d.walk jump here names = .at l) :
    d.walk jump' here names = .at l := by
  induction names generalizing here with
  | nil => exact h
  | cons name names ih =>
      rw [walk] at h ⊢
      split at h
      · next hsame => rw [if_pos hsame, ih h]
      next hsame =>
      rw [if_neg hsame]
      split at h
      · next hback => rw [if_pos hback, ih h]
      next hback =>
      rw [if_neg hback]
      split at h
      · simp at h
      next hnull =>
      rw [if_neg hnull]
      split at h
      · simp at h
      · next target hlink =>
          split at h
          · next there hthere => simp only [hjump _ _ _ hthere, ih h]
          · simp at h
          · simp at h
      · exact ih h

/-- Where a way leads, it leads as well if more links may be followed. -/
theorem follow_succ {depth : Nat} {here l : Location} {names : List String}
    (h : d.follow depth here names = .at l) : d.follow (depth + 1) here names = .at l := by
  induction depth generalizing here l names with
  | zero => exact walk_of_jump (fun _ _ _ h => by simp at h) h
  | succ depth ih => exact walk_of_jump (fun _ _ _ h => ih h) h

end Following

/-! ### Looking up -/

section LookingUp

variable {jump : Location → String → List String → Except Obstacle Location} {here there l : Location}
  {name : String} {names more : List String} {node : Node} {links : Nat}

/-- The name of an entry in a directory that is no link is looked up there. -/
theorem seek_name (hd : d.Sane) (ht : d.Tree) (hhere : d.node? here = some .directory)
    (hname : d.node? (here ++ [name]) = some node) (hnode : ∀ target, node ≠ .link target)
    (names : List String) : d.seek jump here (name :: names) = d.seek jump (here ++ [name]) names := by
  obtain ⟨-, hback⟩ := names_of_node? hd ht hname name (by simp)
  obtain ⟨hproper, hshort⟩ := proper_of_node? hd ht hname name (by simp)
  rw [not_or] at hproper
  rw [seek, hhere, if_neg (by simp [Node.isDirectory]), if_neg hproper.1, if_neg (by simp),
    if_neg hproper.2, if_neg hback, if_neg (by omega), hname]
  cases node with
  | link target => exact absurd rfl (hnode target)
  | directory | closed | file => rfl

/-- What looks steps up goes on from where they lead. -/
theorem seek_append (hjump : ∀ here target rest, jump here target rest = .ok there →
      jump here target (rest ++ more) = .ok l)
    (hmore : d.seek jump there more = .ok l) (h : d.seek jump here names = .ok there) :
    d.seek jump here (names ++ more) = .ok l := by
  induction names generalizing here with
  | nil =>
      obtain rfl := Except.ok.inj h
      exact hmore
  | cons name names ih =>
      rw [seek] at h
      rw [List.cons_append, seek]
      split at h
      · simp at h
      next hdirectory =>
      rw [if_neg hdirectory]
      split at h
      · next hempty => rw [if_pos hempty, ih h]
      next hempty =>
      rw [if_neg hempty]
      split at h
      · simp at h
      next hclosed =>
      rw [if_neg hclosed]
      split at h
      · next hdot => rw [if_pos hdot, ih h]
      next hdot =>
      rw [if_neg hdot]
      split at h
      · next hback => rw [if_pos hback, ih h]
      next hback =>
      rw [if_neg hback]
      split at h
      · simp at h
      next hlong =>
      rw [if_neg hlong]
      split at h
      · simp at h
      · exact hjump _ _ _ h
      · exact ih h

/-- A look-up goes on from where it leads, if that takes no links. -/
theorem lookUp_append (hmore : ∀ links, d.lookUp links there more = .ok l)
    (h : d.lookUp links here names = .ok there) : d.lookUp links here (names ++ more) = .ok l := by
  induction links generalizing here names with
  | zero => exact seek_append (fun _ _ _ h => by simp at h) (hmore 0) h
  | succ links ih =>
      refine seek_append (fun here target rest h => ?_) (hmore (links + 1)) h
      rw [← List.append_assoc]
      exact ih h

/-- The names of a way through directories are looked up along it, unless its end is a link. -/
theorem Within.lookUp (hd : d.Sane) (ht : d.Tree) {top : Location} {names : List String} {node : Node}
    (h : d.Within top names node) (hnode : ∀ target, node ≠ .link target) (links : Nat) :
    d.lookUp links top names = .ok (top ++ names) := by
  have hstep : ∀ {here : Location} {name : String} {node : Node}, d.node? here = some .directory →
      d.node? (here ++ [name]) = some node → (∀ target, node ≠ .link target) →
        ∀ links, d.lookUp links here [name] = .ok (here ++ [name]) := by
    intro here name node hhere hname hnode links
    cases links with
    | zero => exact seek_name hd ht hhere hname hnode []
    | succ links => exact seek_name hd ht hhere hname hnode []
  induction h with
  | child htop hname => exact hstep htop hname hnode links
  | @deeper names name node hnames hname ih =>
      rw [← List.append_assoc] at hname ⊢
      exact lookUp_append (hstep hnames.node?_eq hname hnode) (ih (by simp))

/-- Where looking steps up leads, following them leads as well, if that holds behind a link. -/
theorem walk_of_seek (hd : d.Sane) (ht : d.Tree) {jump' : Location → String → Destination}
    (hjump : ∀ here target rest, jump here target rest = .ok l → ∃ there,
      jump' here target = .at there ∧ d.walk jump' there rest = .at l)
    (h : d.seek jump here names = .ok l) : d.walk jump' here names = .at l := by
  induction names generalizing here with
  | nil => rw [walk, Except.ok.inj h]
  | cons name names ih =>
      rw [seek] at h
      rw [walk]
      split at h
      · simp at h
      split at h
      · next hempty => rw [if_pos (.inl hempty), ih h]
      next hempty =>
      split at h
      · simp at h
      split at h
      · next hdot => rw [if_pos (.inr hdot), ih h]
      next hdot =>
      rw [if_neg (by simp [hempty, hdot])]
      split at h
      · next hback => rw [if_pos hback, ih h]
      next hback =>
      rw [if_neg hback]
      split at h
      · simp at h
      split at h
      · simp at h
      · next target hlink =>
          obtain ⟨hnull, -⟩ := names_of_node? hd ht hlink name (by simp)
          obtain ⟨there, hthere, hrest⟩ := hjump _ _ _ h
          rw [if_neg (by simpa [NullFree] using hnull)]
          simp only [hthere, hrest]
      · next node hlink hnode =>
          obtain ⟨hnull, -⟩ := names_of_node? hd ht hnode name (by simp)
          rw [if_neg (by simpa [NullFree] using hnull), ih h]

/-- Where a look-up leads, the path really leads as well. -/
theorem follow_of_lookUp (hd : d.Sane) (ht : d.Tree) {depth : Nat} (hdepth : links ≤ depth)
    (h : d.lookUp links here names = .ok l) : d.follow depth here names = .at l := by
  induction links generalizing here names depth with
  | zero =>
      cases depth with
      | zero => exact walk_of_seek hd ht (fun _ _ _ h => by simp at h) h
      | succ depth => exact walk_of_seek hd ht (fun _ _ _ h => by simp at h) h
  | succ links ih =>
      obtain ⟨depth, rfl⟩ := Nat.exists_eq_succ_of_ne_zero (show depth ≠ 0 by omega)
      refine walk_of_seek hd ht (fun here target rest hjump => ?_) h
      have hall := ih (Nat.le_of_succ_le_succ hdepth) hjump
      rw [follow_append] at hall
      cases hthere : d.follow depth (origin here (.ofText target)) (steps target) with
      | «at» there =>
          rw [hthere] at hall
          exact ⟨there, rfl, follow_succ hall⟩
      | nowhere | nullCharacter => simp [hthere, Destination.andThen] at hall

end LookingUp

/-- A name directly below the root that is too long cannot be looked up. -/
theorem directory?_of_lt_size (d : Disk) {name : String} (hnull : NullFree name)
    (hlong : nameLimit < name.utf8ByteSize) (hfits : name.utf8ByteSize < pathLimit) :
    d.directory? ⟨.single, [name]⟩ = .error (.tooLong ⟨.single, [name]⟩) := by
  have hroot : d.node? [] = some .directory := if_pos rfl
  have hne (short : String) (hshort : short.utf8ByteSize ≤ nameLimit) : name ≠ short := by
    rintro rfl
    omega
  have hseek (jump : Location → String → List String → Except Obstacle Location) :
      d.seek jump [] [name] = .error .tooLong := by
    simp [seek, hroot, Node.isDirectory, hne "" (by decide), hne "." (by decide),
      hne ".." (by decide), hlong]
  have hlookUp : d.lookUp linkLimit (origin d.workingDirectory ⟨.single, [name]⟩) [name] =
      .error .tooLong := hseek _
  have hparts : (⟨.single, [name]⟩ : Path).parts.any (·.toList.contains '\x00') = false := by
    simpa [NullFree] using hnull
  have hexceeds : exceeds ⟨.single, [name]⟩ = false := by
    have hslash : Path.Root.single.text.utf8ByteSize = 1 := by decide
    simp only [exceeds, Path.text, String.utf8ByteSize_append, hslash, String.intercalate_singleton,
      decide_eq_false_iff_not]
    omega
  have hfind : d.find? ⟨.single, [name]⟩ = .error (.tooLong ⟨.single, [name]⟩) := by
    simp only [find?, hparts, hexceeds, hlookUp, Bool.false_eq_true, if_false]
  rw [directory?, hfind]
  rfl

/-! ### Paths below a directory -/

section Below

variable {root : Path} {top : Location} {names : List String} {node : Node}

/-- What is found at a path is the entry at the location that looking it up leads to. -/
theorem lookUp_of_find? {path : Path} {l : Location} (h : d.find? path = .ok (some (l, node))) :
    (∀ w ∈ path.parts, NullFree w) ∧ exceeds path = false ∧ d.node? l = some node ∧
      d.lookUp linkLimit (origin d.workingDirectory path) path.parts = .ok l := by
  unfold find? at h
  split at h
  · simp at h
  next hnull =>
  split at h
  · simp at h
  next hshort =>
  split at h
  · next l' hl =>
      obtain ⟨node', hnode, heq⟩ := Option.map_eq_some_iff.1 (Except.ok.inj h)
      obtain ⟨rfl, rfl⟩ := Prod.mk.inj heq
      exact ⟨by simpa [NullFree] using hnull, by simpa using hshort, hnode, hl⟩
  · simp at h
  · simp at h
  · simp at h

/-- A directory at a path is what is found there. -/
theorem find?_of_directory? (h : d.directory? root = .ok (some top)) :
    ∃ node, node.isDirectory = true ∧ d.find? root = .ok (some (top, node)) := by
  obtain ⟨found, hfound, hdirectory⟩ := map_eq_ok_iff.1 h
  unfold directoryOf at hdirectory
  split at hdirectory
  · next l node =>
      split at hdirectory
      · next hnode =>
          obtain rfl := Option.some.inj hdirectory
          exact ⟨node, hnode, hfound⟩
      · simp at hdirectory
  · simp at hdirectory

/-- A path to a directory that goes on through directories leads to the entry at their end, unless
that is a link or the path is too long. -/
theorem find?_below (hd : d.Sane) (ht : d.Tree) (hroot : d.directory? root = .ok (some top))
    (h : d.Within top names node) (hnode : ∀ target, node ≠ .link target) :
    d.find? (root.below names) = if exceeds (root.below names) then .error (.tooLong (root.below names))
      else .ok (some (top ++ names, node)) := by
  obtain ⟨topNode, -, hfind⟩ := find?_of_directory? hroot
  obtain ⟨hnull, -, -, hlookUp⟩ := lookUp_of_find? hfind
  have horigin : origin d.workingDirectory (root.below names) =
      origin d.workingDirectory root := rfl
  have hbelow : d.lookUp linkLimit (origin d.workingDirectory (root.below names))
      (root.below names).parts = .ok (top ++ names) := by
    rw [horigin]
    exact lookUp_append (h.lookUp hd ht hnode) hlookUp
  have hfree : ¬ (root.below names).parts.any (·.toList.contains '\x00') := by
    simp only [List.any_eq_true, not_exists, not_and]
    intro w hw
    rcases List.mem_append.1 hw with hw | hw
    · simpa [NullFree] using hnull w hw
    · have hname := (names_of_node? hd ht h.node?_eq w (List.mem_append_right _ hw)).1
      simpa [NullFree] using hname
  rw [find?, if_neg hfree, hbelow]
  simp only [h.node?_eq, Option.map_some]

/-- A path to a directory really leads there. -/
theorem realPath_of_directory? (hd : d.Sane) (ht : d.Tree)
    (hroot : d.directory? root = .ok (some top)) : d.realPath root = .at top := by
  obtain ⟨topNode, -, hfind⟩ := find?_of_directory? hroot
  exact follow_of_lookUp hd ht (Nat.le_add_left _ _) (lookUp_of_find? hfind).2.2.2

/-- A path to a directory that goes on through directories really leads to their end. -/
theorem realPath_below (hd : d.Sane) (ht : d.Tree) (hroot : d.directory? root = .ok (some top))
    (h : d.Within top names node) (hnode : ∀ target, node ≠ .link target) :
    d.realPath (root.below names) = .at (top ++ names) := by
  have htop := realPath_of_directory? hd ht hroot
  have horigin : origin d.workingDirectory (root.below names) =
      origin d.workingDirectory root := rfl
  unfold realPath at htop ⊢
  rw [horigin, Path.below, follow_append, htop, Destination.andThen, h.follow hd ht hnode]

end Below

/-- If the working directory is there, a path leads where it leads as seen from there. -/
theorem realPath_join (hd : d.Sane) (ht : d.Tree)
    (hhome : d.node? d.workingDirectory = some .directory) (path : Path) :
    d.realPath (d.workingPath.join path) = d.realPath path := by
  unfold Path.join
  split
  · rfl
  next hrelative =>
  have hstart : ∀ depth, d.follow depth [] d.workingDirectory = .at d.workingDirectory := by
    intro depth
    by_cases hnil : d.workingDirectory = []
    · rw [hnil]
      cases depth <;> rfl
    · have hway : d.Within [] d.workingDirectory .directory := .of_node? ht hnil hhome
      exact hway.follow hd ht (by simp) depth
  have horigin : origin d.workingDirectory path = d.workingDirectory := by
    simp [origin, hrelative]
  have habsolute : origin d.workingDirectory
      ⟨d.workingPath.root, d.workingPath.parts ++ path.parts⟩ = [] := rfl
  unfold realPath
  rw [horigin, habsolute, workingPath, follow_append, hstart]
  rfl

end Disk

end Npl
