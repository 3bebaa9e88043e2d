import Npl.Proofs.Keyed
import Npl.Proofs.Program.Resolution

/-!
# Merging declarations

The declarations of all units are merged into tables, two for each package: structures and functions
are kept apart, but they share one name space. So a declaration is taken in only if neither table
has its name yet. Of each unit the structures are taken in before the functions.

What the check goes by is not these tables but the first entry of a name in the order of merging.
Both tell the same: the declaration that a table holds is the one that the check spares, and all
others of its name are reported, each at the place of its own name.

## Main definitions

* `Occurrence` — a declaration where it stands.
* `occurrences`, `inMergeOrder` — all declarations, in source order and in the order of merging.
* `Tables`, `merge` — what merging keeps.
* `Occurrence.IsKept` — the tables hold that very declaration.

## Main results

* `hold_merge` — the tables hold the first declaration of each name in the order of merging.
* `isDuplicate_entry` — the check spares exactly the declarations that are kept.
* `duplicates_complete` — of each name one declaration is kept, and all others are reported.
-/

namespace Npl

/-! ### Declarations where they stand -/

namespace Declaration

/-- The token that names a declaration. -/
def nameToken : Declaration → Token
  | struct d => d.nameToken
  | function d => d.nameToken

/-- The name of a declaration. -/
def name (d : Declaration) : String :=
  d.nameToken.text

/-- What a declaration is. -/
def kind : Declaration → EntryKind
  | struct _ => .struct
  | function _ => .function

end Declaration

/-- A declaration where it stands: in which unit, which number the unit has, and which number the
declaration has among those of the unit in source order. -/
structure Occurrence where
  number : Nat
  unit : SourceUnit
  index : Nat
  decl : Declaration

namespace Occurrence

/-- The numbers that tell a declaration from all others. -/
def site (o : Occurrence) : Nat × Nat :=
  (o.number, o.index)

/-- The package and the name that are declared. -/
def key (o : Occurrence) : String × String :=
  (o.unit.package, o.decl.name)

/-- The entry of the declaration in a scope, which counts the declarations of its kind only. -/
def entry (o : Occurrence) : Entry :=
  ⟨o.unit.package, o.decl.name, o.decl.kind, o.number,
    (o.unit.tree.declarations.take o.index).countP (·.kind = o.decl.kind)⟩

/-- The report that the name of the declaration belongs to another one. -/
def report (o : Occurrence) : Message :=
  o.unit.report (.duplicate o.decl.name o.unit.package) o.decl.nameToken o.decl.nameToken

end Occurrence

namespace SourceUnit

/-- The declarations of the unit with the number `i` in source order. -/
def occurrences (u : SourceUnit) (i : Nat) : List Occurrence :=
  u.tree.declarations.mapIdx fun j d => ⟨i, u, j, d⟩

/-- The declarations of a kind of the unit with the number `i`. -/
def occurrencesOf (u : SourceUnit) (i : Nat) (kind : EntryKind) : List Occurrence :=
  (u.occurrences i).filter (·.decl.kind = kind)

/-- The declarations of the unit with the number `i`, the structures before the functions. -/
def inMergeOrder (u : SourceUnit) (i : Nat) : List Occurrence :=
  u.occurrencesOf i .struct ++ u.occurrencesOf i .function

end SourceUnit

/-- All declarations, unit by unit, in source order. -/
def occurrences (units : List SourceUnit) : List Occurrence :=
  units.zipIdx.flatMap fun (u, i) => u.occurrences i

/-- All declarations, unit by unit, of each unit the structures before the functions. -/
def inMergeOrder (units : List SourceUnit) : List Occurrence :=
  units.zipIdx.flatMap fun (u, i) => u.inMergeOrder i

/-! ### Tables -/

/-- The declarations that a package keeps, given by where they stand: the structures and the
functions by their names. -/
structure Tables where
  structs : Keyed (Nat × Nat)
  functions : Keyed (Nat × Nat)
deriving DecidableEq, Repr

namespace Tables

/-- Tables without declarations. -/
def empty : Tables :=
  ⟨.empty, .empty⟩

/-- The table for the declarations of a kind. -/
def table (t : Tables) : EntryKind → Keyed (Nat × Nat)
  | .struct => t.structs
  | .function => t.functions

/-- Whether one of the tables has the name. -/
def declares (t : Tables) (name : String) : Bool :=
  t.structs.contains name || t.functions.contains name

/-- Takes a declaration in, unless its name is taken. -/
def add (t : Tables) (o : Occurrence) : Tables :=
  if t.declares o.decl.name then t
  else match o.decl.kind with
    | .struct => { t with structs := t.structs.set o.decl.name o.site }
    | .function => { t with functions := t.functions.set o.decl.name o.site }

end Tables

/-- The tables of a package, which are empty as long as nothing was taken in. -/
def tablesOf (packages : Keyed Tables) (package : String) : Tables :=
  (packages.get? package).getD .empty

/-- Takes the declarations into the tables of their packages, one after the other. -/
def merge (os : List Occurrence) : Keyed Tables :=
  os.foldl (fun packages o =>
    packages.set o.unit.package ((tablesOf packages o.unit.package).add o)) .empty

/-- Which declaration of that kind the tables of the package hold under that name. -/
def held (packages : Keyed Tables) (package : String) (kind : EntryKind) (name : String) :
    Option (Nat × Nat) :=
  ((tablesOf packages package).table kind).get? name

/-- After all units are merged, the tables hold this declaration under its name. -/
def Occurrence.IsKept (units : List SourceUnit) (o : Occurrence) : Prop :=
  held (merge (inMergeOrder units)) o.unit.package o.decl.kind o.decl.name = some o.site

instance (units : List SourceUnit) : DecidablePred (Occurrence.IsKept units) := fun _ =>
  inferInstanceAs (Decidable (_ = some _))

/-! ### Where declarations stand -/

section

variable {units : List SourceUnit} {u : SourceUnit} {i : Nat} {o p : Occurrence}

theorem SourceUnit.mem_occurrences_iff :
    o ∈ u.occurrences i ↔
      o.number = i ∧ o.unit = u ∧ u.tree.declarations[o.index]? = some o.decl := by
  simp only [occurrences, List.mem_mapIdx]
  constructor
  · rintro ⟨j, hj, rfl⟩
    exact ⟨rfl, rfl, List.getElem?_eq_getElem hj⟩
  · rintro ⟨rfl, rfl, hdecl⟩
    obtain ⟨hj, heq⟩ := List.getElem?_eq_some_iff.1 hdecl
    exact ⟨o.index, hj, by rw [heq]⟩

theorem mem_occurrences_iff :
    o ∈ occurrences units ↔
      units[o.number]? = some o.unit ∧ o.unit.tree.declarations[o.index]? = some o.decl := by
  simp only [occurrences, List.mem_flatMap, Prod.exists, List.mem_zipIdx_iff_getElem?,
    SourceUnit.mem_occurrences_iff]
  constructor
  · rintro ⟨u, i, hunit, rfl, rfl, hdecl⟩
    exact ⟨hunit, hdecl⟩
  · rintro ⟨hunit, hdecl⟩
    exact ⟨o.unit, o.number, hunit, rfl, rfl, hdecl⟩

/-- Declarations that stand at the same place are the same. -/
theorem Occurrence.eq_of_site (ho : o ∈ occurrences units) (hp : p ∈ occurrences units)
    (h : o.site = p.site) : o = p := by
  obtain ⟨hunit, hdecl⟩ := mem_occurrences_iff.1 ho
  obtain ⟨hunit', hdecl'⟩ := mem_occurrences_iff.1 hp
  obtain ⟨number, unit, index, decl⟩ := o
  obtain ⟨number', unit', index', decl'⟩ := p
  obtain ⟨rfl, rfl⟩ := Prod.mk.inj h
  obtain rfl := Option.some.inj (hunit.symm.trans hunit')
  obtain rfl := Option.some.inj (hdecl.symm.trans hdecl')
  rfl

theorem mem_occurrencesOf_iff {kind : EntryKind} :
    o ∈ u.occurrencesOf i kind ↔ o ∈ u.occurrences i ∧ o.decl.kind = kind := by
  rw [SourceUnit.occurrencesOf, List.mem_filter, decide_eq_true_eq]

theorem SourceUnit.inMergeOrder_perm (u : SourceUnit) (i : Nat) :
    (u.inMergeOrder i).Perm (u.occurrences i) := by
  have hothers : (fun o : Occurrence => decide (o.decl.kind = .function)) =
      fun o => !decide (o.decl.kind = .struct) := by
    funext o
    cases o.decl.kind <;> rfl
  simp only [inMergeOrder, occurrencesOf, hothers]
  exact List.filter_append_perm _ _

theorem SourceUnit.mem_inMergeOrder_iff : o ∈ u.inMergeOrder i ↔ o ∈ u.occurrences i :=
  (u.inMergeOrder_perm i).mem_iff

/-- Merging goes through all declarations, each of them once. -/
theorem inMergeOrder_perm (units : List SourceUnit) :
    (inMergeOrder units).Perm (occurrences units) :=
  List.Perm.flatMap_left _ fun (u, i) _ => u.inMergeOrder_perm i

theorem mem_inMergeOrder_iff : o ∈ inMergeOrder units ↔ o ∈ occurrences units :=
  (inMergeOrder_perm units).mem_iff

end

/-! ### What the tables hold -/

section

variable {t : Tables} {o : Occurrence} {package name : String} {kind : EntryKind}

theorem Tables.declares_iff :
    t.declares name = true ↔ ∃ kind site, (t.table kind).get? name = some site := by
  simp only [declares, Keyed.contains, Bool.or_eq_true, Option.isSome_iff_exists]
  constructor
  · rintro (⟨site, hsite⟩ | ⟨site, hsite⟩)
    · exact ⟨.struct, site, hsite⟩
    · exact ⟨.function, site, hsite⟩
  · rintro ⟨kind, site, hsite⟩
    cases kind with
    | struct => exact .inl ⟨site, hsite⟩
    | function => exact .inr ⟨site, hsite⟩

/-- A declaration whose name is taken changes nothing. -/
theorem Tables.add_of_declares (h : t.declares o.decl.name = true) : t.add o = t := by
  rw [add, if_pos h]

/-- A declaration with a new name is found in the table for its kind, and nothing else is new. -/
theorem Tables.get?_add (h : t.declares o.decl.name = false) :
    ((t.add o).table kind).get? name =
      if o.decl.kind = kind ∧ o.decl.name = name then some o.site
      else (t.table kind).get? name := by
  rw [add, if_neg (by simp [h])]
  cases hkind : o.decl.kind <;> cases kind <;> simp [table, Keyed.get?_set]

/-- A table holds the declarations of its kind among those that the names stand for. -/
def Tables.Hold (t : Tables) (first? : String → Option Occurrence) : Prop :=
  ∀ kind name, (t.table kind).get? name =
    ((first? name).filter (·.decl.kind = kind)).map Occurrence.site

/-- A name is taken exactly if it stands for a declaration. -/
theorem Tables.Hold.declares_iff {first? : String → Option Occurrence} (h : t.Hold first?) :
    t.declares name = true ↔ (first? name).isSome = true := by
  simp only [Tables.declares_iff, h _ _, Option.map_eq_some_iff, Option.filter_eq_some_iff,
    decide_eq_true_eq, Option.isSome_iff_exists]
  constructor
  · rintro ⟨-, -, p, ⟨hp, -⟩, -⟩
    exact ⟨p, hp⟩
  · rintro ⟨p, hp⟩
    exact ⟨p.decl.kind, p.site, p, ⟨hp, rfl⟩, rfl⟩

/-- After a declaration was taken in, its name stands for it, unless it stood for another one. -/
theorem Tables.Hold.add {first? : String → Option Occurrence} (h : t.Hold first?)
    (o : Occurrence) :
    (t.add o).Hold fun name => (first? name).or (if o.decl.name = name then some o else none) := by
  intro kind name
  beta_reduce
  cases htaken : t.declares o.decl.name with
  | true =>
      rw [Tables.add_of_declares htaken, h kind name]
      by_cases hname : o.decl.name = name
      · subst hname
        obtain ⟨p, hp⟩ := Option.isSome_iff_exists.1 (h.declares_iff.1 htaken)
        rw [hp, Option.some_or]
      · rw [if_neg hname, Option.or_none]
  | false =>
      rw [Tables.get?_add htaken, h kind name]
      by_cases hname : o.decl.name = name
      · subst hname
        have hnone : first? o.decl.name = none := by
          rw [← Option.not_isSome_iff_eq_none, ← h.declares_iff, htaken]
          exact Bool.false_ne_true
        by_cases hkind : o.decl.kind = kind
        · simp [hnone, hkind]
        · simp [hnone, hkind]
      · rw [if_neg (fun hboth => hname hboth.2), if_neg hname, Option.or_none]

/-- One more declaration goes into the tables of its package. -/
theorem tablesOf_merge_concat (os : List Occurrence) (o : Occurrence) (package : String) :
    tablesOf (merge (os ++ [o])) package =
      if o.unit.package = package then (tablesOf (merge os) package).add o
      else tablesOf (merge os) package := by
  have hconcat : merge (os ++ [o]) =
      (merge os).set o.unit.package ((tablesOf (merge os) o.unit.package).add o) := by
    rw [merge, List.foldl_append]
    rfl
  rw [hconcat, tablesOf, Keyed.get?_set]
  split
  · next hpackage => rw [hpackage, Option.getD_some]
  · rfl

/-- **The tables hold the first declaration of each name**, each in the table for its kind. -/
theorem hold_merge (os : List Occurrence) (package : String) :
    (tablesOf (merge os) package).Hold fun name => os.find? (·.key = (package, name)) := by
  induction os using List.reverseRecOn with
  | nil =>
      intro kind name
      cases kind <;> rfl
  | append_singleton os o ih =>
      have hlast : ∀ name, [o].find? (·.key = (package, name)) =
          if o.unit.package = package ∧ o.decl.name = name then some o else none := fun name => by
        simp only [List.find?_singleton, Occurrence.key, Prod.mk.injEq, decide_eq_true_eq]
      simp only [tablesOf_merge_concat, List.find?_append, hlast]
      by_cases hpackage : o.unit.package = package
      · simp only [hpackage, if_true, true_and]
        exact ih.add o
      · simp only [hpackage, if_false, false_and, Option.or_none]
        exact ih

end

/-! ### Entries -/

section

variable {α β : Type}

/-- The members that are picked from a list, each with the number of those picked before it, are
numbered one after the other. -/
theorem filter_mapIdx_countP (l : List α) (P : α → Bool) :
    ((l.mapIdx fun j a => (a, (l.take j).countP P)).filter fun x => P x.1) =
      (l.filter P).mapIdx fun j a => (a, j) := by
  induction l using List.reverseRecOn with
  | nil => rfl
  | append_singleton l a ih =>
      have hbefore : (l.mapIdx fun j b => (b, ((l ++ [a]).take j).countP P)) =
          l.mapIdx fun j b => (b, (l.take j).countP P) :=
        List.ext_getElem (by simp) fun j hj _ => by
          have hle : j ≤ l.length := Nat.le_of_lt (by simpa using hj)
          simp [List.take_append_of_le_length hle]
      rw [List.mapIdx_concat, hbefore, List.filter_append, ih, List.filter_append]
      cases ha : P a with
      | true => simp [ha, List.countP_eq_length_filter]
      | false => simp [ha]

/-- Picking members and working something out for each of them. -/
theorem filterMap_ite (l : List α) (P : α → Bool) (f : α → β) :
    (l.filterMap fun a => if P a then some (f a) else none) = (l.filter P).map f := by
  induction l with
  | nil => rfl
  | cons a l ih =>
      by_cases ha : P a
      · simp [ha, ih]
      · simp [ha, ih]

end

namespace SourceUnit

variable (u : SourceUnit) (i : Nat)

theorem map_nameToken_structs : u.tree.structs.map StructDecl.nameToken =
    (u.tree.declarations.filter (·.kind = .struct)).map Declaration.nameToken := by
  rw [Tree.structs]
  induction u.tree.declarations with
  | nil => rfl
  | cons d ds ih =>
      cases d with
      | struct d => exact congrArg (d.nameToken :: ·) ih
      | function d => exact ih

theorem map_nameToken_functions : u.tree.functions.map FunctionDecl.nameToken =
    (u.tree.declarations.filter (·.kind = .function)).map Declaration.nameToken := by
  rw [Tree.functions]
  induction u.tree.declarations with
  | nil => rfl
  | cons d ds ih =>
      cases d with
      | struct d => exact ih
      | function d => exact congrArg (d.nameToken :: ·) ih

theorem map_decl_occurrencesOf (kind : EntryKind) :
    (u.occurrencesOf i kind).map Occurrence.decl = u.tree.declarations.filter (·.kind = kind) := by
  have hdecls : (u.occurrences i).map Occurrence.decl = u.tree.declarations :=
    List.ext_getElem (by simp [occurrences]) (by simp [occurrences])
  rw [← hdecls, List.filter_map, occurrencesOf]
  rfl

/-- The declarations of a kind are numbered one after the other in their entries. -/
theorem map_entry_occurrencesOf (kind : EntryKind) :
    (u.occurrencesOf i kind).map Occurrence.entry =
      ((u.tree.declarations.filter (·.kind = kind)).map Declaration.nameToken).mapIdx
        fun j t => ⟨u.package, t.text, kind, i, j⟩ := by
  -- What an entry adds to a declaration is the number of those of the kind before it.
  have hcounted : (u.occurrences i).map (fun o =>
      (o.decl, (u.tree.declarations.take o.index).countP (·.kind = kind))) =
        u.tree.declarations.mapIdx fun j d =>
          (d, (u.tree.declarations.take j).countP (·.kind = kind)) :=
    List.ext_getElem (by simp [occurrences]) (by simp [occurrences])
  have hentry : ∀ o ∈ u.occurrencesOf i kind, o.entry =
      (⟨u.package, o.decl.name, kind, i,
        (u.tree.declarations.take o.index).countP (·.kind = kind)⟩ : Entry) := by
    intro o ho
    obtain ⟨hmem, rfl⟩ := mem_occurrencesOf_iff.1 ho
    obtain ⟨rfl, rfl, -⟩ := mem_occurrences_iff.1 hmem
    rfl
  have hnumbered := filter_mapIdx_countP u.tree.declarations (·.kind = kind)
  rw [← hcounted, List.filter_map] at hnumbered
  rw [List.map_congr_left hentry]
  calc (u.occurrencesOf i kind).map _
      = (((u.occurrencesOf i kind).map fun o =>
          (o.decl, (u.tree.declarations.take o.index).countP (·.kind = kind))).map fun x =>
            (⟨u.package, x.1.name, kind, i, x.2⟩ : Entry)) := by rw [List.map_map]; rfl
    _ = ((u.tree.declarations.filter (·.kind = kind)).mapIdx fun j d => (d, j)).map fun x =>
            (⟨u.package, x.1.name, kind, i, x.2⟩ : Entry) := congrArg _ hnumbered
    _ = _ := List.ext_getElem (by simp) (by simp [Declaration.name])

/-- The entries of a unit are those of its declarations in the order of merging. -/
theorem entries_eq : u.entries i = (u.inMergeOrder i).map Occurrence.entry := by
  rw [inMergeOrder, List.map_append, map_entry_occurrencesOf, map_entry_occurrencesOf,
    ← map_nameToken_structs, ← map_nameToken_functions, entries]
  congr 1
  · exact List.ext_getElem (by simp) (by simp [StructDecl.name])
  · exact List.ext_getElem (by simp) (by simp [FunctionDecl.name])

/-- The duplicate declarations of a unit are told in the order of merging. -/
theorem duplicateErrors_eq (s : Scope) : u.duplicateErrors s i =
    ((u.inMergeOrder i).filter fun o => s.isDuplicate o.entry).map Occurrence.report := by
  have htokens : u.tree.structs.map StructDecl.nameToken ++
      u.tree.functions.map FunctionDecl.nameToken =
        (u.inMergeOrder i).map (·.decl.nameToken) := by
    rw [inMergeOrder, map_nameToken_structs, map_nameToken_functions, ← map_decl_occurrencesOf u i,
      ← map_decl_occurrencesOf u i, List.map_append, List.map_map, List.map_map]
    rfl
  rw [duplicateErrors, entries_eq, htokens, List.zip_map', List.filterMap_map, ← filterMap_ite]
  refine List.filterMap_congr fun o ho => ?_
  obtain ⟨-, rfl, -⟩ := mem_occurrences_iff.1 (mem_inMergeOrder_iff.1 ho)
  rfl

end SourceUnit

/-- Up to a member that counts there are fewer of those that count than behind it. -/
theorem countP_take_lt {α : Type} {l : List α} {P : α → Bool} {j k : Nat} {a : α}
    (hj : l[j]? = some a) (ha : P a = true) (hlt : j < k) :
    (l.take j).countP P < (l.take k).countP P := by
  have hstep : (l.take (j + 1)).countP P = (l.take j).countP P + 1 := by
    simp [List.take_add_one, hj, ha]
  have hle : (l.take (j + 1)).countP P ≤ (l.take k).countP P :=
    (List.take_sublist_take_left hlt).countP_le
  omega

/-! ### What is kept, and what is reported -/

section

variable {units : List SourceUnit} {o p : Occurrence}

/-- Declarations with the same entry are the same. -/
theorem Occurrence.eq_of_entry (ho : o ∈ occurrences units) (hp : p ∈ occurrences units)
    (h : o.entry = p.entry) : o = p := by
  obtain ⟨hunit, hdecl⟩ := mem_occurrences_iff.1 ho
  obtain ⟨hunit', hdecl'⟩ := mem_occurrences_iff.1 hp
  obtain ⟨-, -, hkind, hnumber, hcount⟩ := Entry.mk.inj h
  rw [← hnumber, hunit] at hunit'
  obtain hsame := Option.some.inj hunit'
  rw [← hsame] at hdecl' hcount
  rw [← hkind] at hcount
  have hindex : o.index = p.index := by
    rcases Nat.lt_trichotomy o.index p.index with hlt | heq | hlt
    · exact absurd hcount (Nat.ne_of_lt (countP_take_lt hdecl (by simp) hlt))
    · exact heq
    · exact absurd hcount.symm (Nat.ne_of_lt (countP_take_lt hdecl' (by simp [hkind]) hlt))
  exact Occurrence.eq_of_site ho hp (Prod.ext hnumber hindex)

theorem Scope.ofUnits_eq (units : List SourceUnit) :
    Scope.ofUnits units = (inMergeOrder units).map Occurrence.entry := by
  rw [ofUnits, List.mapIdx_eq_zipIdx_map, ← List.flatMap_def, inMergeOrder, List.map_flatMap]
  simp only [SourceUnit.entries_eq]

/-- The declaration that is kept is the first of its name in the order of merging. -/
theorem Occurrence.isKept_iff (ho : o ∈ occurrences units) :
    o.IsKept units ↔ (inMergeOrder units).find? (·.key = o.key) = some o := by
  rw [IsKept, held, hold_merge, Option.map_eq_some_iff]
  constructor
  · rintro ⟨p, hp, hsite⟩
    have hfound := (Option.filter_eq_some_iff.1 hp).1
    have hmem := mem_inMergeOrder_iff.1 (List.mem_of_find?_eq_some hfound)
    rwa [Occurrence.eq_of_site hmem ho hsite] at hfound
  · intro hfound
    exact ⟨o, Option.filter_eq_some_iff.2 ⟨hfound, by simp⟩, rfl⟩

/-- A name belongs, for the check, to the declaration that the tables hold. -/
theorem Scope.find?_eq_some_iff_isKept (ho : o ∈ occurrences units) :
    (ofUnits units).find? o.unit.package o.decl.name = some o.entry ↔ o.IsKept units := by
  have hkey : (fun e : Entry => e.package = o.unit.package && e.name = o.decl.name) ∘
      Occurrence.entry = fun p => decide (p.key = o.key) := by
    funext p
    rw [Bool.eq_iff_iff, decide_eq_true_eq, Occurrence.key, Occurrence.key, Prod.mk.injEq,
      ← decide_eq_true_eq (p := p.unit.package = _), ← decide_eq_true_eq (p := p.decl.name = _),
      ← Bool.and_eq_true]
    rfl
  rw [Occurrence.isKept_iff ho, Scope.find?, Scope.ofUnits_eq, List.find?_map, hkey,
    Option.map_eq_some_iff]
  constructor
  · rintro ⟨p, hp, hentry⟩
    have hmem := mem_inMergeOrder_iff.1 (List.mem_of_find?_eq_some hp)
    rwa [Occurrence.eq_of_entry hmem ho hentry] at hp
  · exact fun h => ⟨o, h, rfl⟩

/-- The check spares exactly the declarations that are kept. -/
theorem isDuplicate_entry (ho : o ∈ occurrences units) :
    (Scope.ofUnits units).isDuplicate o.entry = !decide (o.IsKept units) := by
  rw [Scope.isDuplicate, ← decide_not]
  exact decide_eq_decide.2 (not_congr (Scope.find?_eq_some_iff_isKept ho))

/-- Of the declarations of a name, one is kept. -/
theorem exists_isKept (ho : o ∈ occurrences units) :
    ∃ p ∈ occurrences units, p.key = o.key ∧ p.IsKept units := by
  have hsome : ((inMergeOrder units).find? (·.key = o.key)).isSome = true :=
    List.find?_isSome.2 ⟨o, mem_inMergeOrder_iff.2 ho, by simp⟩
  obtain ⟨p, hp⟩ := Option.isSome_iff_exists.1 hsome
  have hmem := mem_inMergeOrder_iff.1 (List.mem_of_find?_eq_some hp)
  have hkey : p.key = o.key := by simpa using List.find?_some hp
  refine ⟨p, hmem, hkey, (Occurrence.isKept_iff hmem).2 ?_⟩
  rw [hkey]
  exact hp

/-- And only one. -/
theorem Occurrence.IsKept.eq (ho : o ∈ occurrences units) (hp : p ∈ occurrences units)
    (hkept : o.IsKept units) (hkept' : p.IsKept units) (hkey : o.key = p.key) : o = p := by
  rw [isKept_iff ho] at hkept
  rw [isKept_iff hp, ← hkey, hkept] at hkept'
  exact Option.some.inj hkept'

/-- The declarations whose names belong to other ones, of the units that are checked. -/
def duplicates (units : List SourceUnit) (skip : List Path) : List Occurrence :=
  (occurrences units).filter fun o => o.unit.isChecked skip && !decide (o.IsKept units)

theorem mem_duplicates_iff {skip : List Path} :
    o ∈ duplicates units skip ↔
      o ∈ occurrences units ∧ o.unit.isChecked skip = true ∧ ¬ o.IsKept units := by
  simp [duplicates]

theorem messagesWith_duplicateDeclaration_errors {u : SourceUnit} {s : Scope} {i : Nat} :
    messagesWith .duplicateDeclaration (u.errors s i) = u.duplicateErrors s i := by
  simp [SourceUnit.errors, messagesWith_flatMap,
    messagesWith_eq fun _ => SourceUnit.code_of_mem_duplicateErrors,
    messagesWith_eq fun _ => SourceUnit.code_of_mem_importErrors,
    messagesWith_eq fun _ => SourceUnit.code_of_mem_typeErrors,
    messagesWith_eq fun _ => SourceUnit.code_of_mem_callErrors,
    messagesWith_eq fun _ => SourceUnit.code_of_mem_returnErrors]

/-- The findings about duplicate declarations, in the order of merging. -/
theorem messagesWith_duplicateDeclaration (units : List SourceUnit) (skip : List Path) :
    messagesWith .duplicateDeclaration (findings units skip) =
      ((inMergeOrder units).filter fun o =>
        o.unit.isChecked skip && !decide (o.IsKept units)).map Occurrence.report := by
  rw [findings, messagesWith_append, messagesWith_warnings (by decide), List.append_nil, check,
    messagesWith, List.filter_flatten, List.mapIdx_eq_zipIdx_map, List.map_map, ← List.flatMap_def,
    inMergeOrder, List.filter_flatMap, List.map_flatMap]
  refine List.flatMap_congr fun ui hui => ?_
  obtain ⟨u, i⟩ := ui
  have hmem : ∀ o ∈ u.inMergeOrder i, o.unit = u ∧ o ∈ occurrences units := by
    intro o ho
    have hunit := SourceUnit.mem_inMergeOrder_iff.1 ho
    exact ⟨(SourceUnit.mem_occurrences_iff.1 hunit).2.1, List.mem_flatMap.2 ⟨_, hui, hunit⟩⟩
  change messagesWith _ (if u.isChecked skip then u.errors _ i else []) = _
  cases hchecked : u.isChecked skip with
  | true =>
      rw [if_pos rfl, messagesWith_duplicateDeclaration_errors, SourceUnit.duplicateErrors_eq]
      refine congrArg _ (List.filter_congr fun o ho => ?_)
      obtain ⟨hunit, ho⟩ := hmem o ho
      rw [isDuplicate_entry ho, hunit, hchecked, Bool.true_and]
  | false =>
      refine ((List.map_eq_nil_iff).2 (List.filter_eq_nil_iff.2 fun o ho => ?_)).symm
      rw [(hmem o ho).1, hchecked]
      simp

/-- Every declaration is told once. -/
theorem nodup_occurrences (units : List SourceUnit) : (occurrences units).Nodup := by
  have hsites : (occurrences units).map Occurrence.site =
      units.zipIdx.flatMap fun (u, i) =>
        (List.range u.tree.declarations.length).map fun j => (i, j) := by
    rw [occurrences, List.map_flatMap]
    exact List.flatMap_congr fun _ _ => List.ext_getElem (by simp [SourceUnit.occurrences])
      (by simp [SourceUnit.occurrences, Occurrence.site])
  refine List.Nodup.of_map Occurrence.site ?_
  rw [hsites, List.nodup_flatMap]
  refine ⟨fun _ _ => List.nodup_range.map fun _ _ h => (Prod.mk.inj h).2, ?_⟩
  -- Sites of different units have different first numbers.
  have hnumbers : units.zipIdx.Pairwise fun ui vj => ui.2 ≠ vj.2 := by
    have hrange : (units.zipIdx.map Prod.snd).Nodup := by
      rw [List.zipIdx_map_snd]
      exact List.nodup_range'
    exact List.pairwise_map.1 hrange
  refine hnumbers.imp fun {ui vj} hne site hsite hsite' => hne ?_
  obtain ⟨_, -, rfl⟩ := List.mem_map.1 hsite
  obtain ⟨_, -, h⟩ := List.mem_map.1 hsite'
  exact (Prod.mk.inj h).1.symm

/-- The findings about duplicate declarations, as they are and not as they are ordered. -/
theorem messagesWith_duplicateDeclaration_perm (units : List SourceUnit) (skip : List Path) :
    (messagesWith .duplicateDeclaration (findings units skip)).Perm
      ((duplicates units skip).map Occurrence.report) := by
  rw [messagesWith_duplicateDeclaration]
  exact ((inMergeOrder_perm units).filter _).map _

/-- **Duplicate declarations are reported completely.** Of the declarations of a name of a package
the merged tables hold exactly one, and it is the one that the name belongs to for the check. Every
other one, if its unit is checked, is reported once, at the token that names it, and no finding of
this kind is about anything else. -/
theorem duplicates_complete (units : List SourceUnit) (skip : List Path) :
    (∀ o ∈ occurrences units,
      ∃! p, p ∈ occurrences units ∧ p.key = o.key ∧ p.IsKept units) ∧
    (∀ o ∈ occurrences units, o.IsKept units ↔
      (Scope.ofUnits units).find? o.unit.package o.decl.name = some o.entry) ∧
    (duplicates units skip).Nodup ∧
    (∀ o, o ∈ duplicates units skip ↔
      o ∈ occurrences units ∧ o.unit.source.library = false ∧ o.unit.location ∉ skip ∧
        ∃ p ∈ occurrences units, p ≠ o ∧ p.key = o.key ∧ p.IsKept units) ∧
    (messagesWith .duplicateDeclaration (findings units skip)).Perm
      ((duplicates units skip).map Occurrence.report) := by
  refine ⟨fun o ho => ?_, fun o ho => (Scope.find?_eq_some_iff_isKept ho).symm,
    (nodup_occurrences units).filter _, fun o => ?_,
    messagesWith_duplicateDeclaration_perm units skip⟩
  · obtain ⟨p, hp, hkey, hkept⟩ := exists_isKept ho
    refine ⟨p, ⟨hp, hkey, hkept⟩, ?_⟩
    rintro q ⟨hq, hkey', hkept'⟩
    exact hkept'.eq hq hp hkept (hkey'.trans hkey.symm)
  · have hchecked : o.unit.isChecked skip = true ↔
        o.unit.source.library = false ∧ o.unit.location ∉ skip := by
      simp [SourceUnit.isChecked]
    rw [mem_duplicates_iff, hchecked, and_assoc]
    refine and_congr_right fun ho => and_congr_right fun _ => and_congr_right fun _ => ?_
    constructor
    · intro hlost
      obtain ⟨p, hp, hkey, hkept⟩ := exists_isKept ho
      exact ⟨p, hp, fun heq => hlost (heq ▸ hkept), hkey, hkept⟩
    · rintro ⟨p, hp, hne, hkey, hkept⟩ hkept'
      exact hne (hkept.eq hp ho hkept' hkey)

end

/-- A library source with a structure. -/
def shelf : Source :=
  ⟨"file:///l.npl", ⟨.single, ["l.npl"]⟩, "package p struct A \x7b\x7d", true⟩

/-- A source that declares that name as well, and another one as a function and twice as a
structure. -/
def heap : Source :=
  ⟨"file:///h.npl", ⟨.single, ["h.npl"]⟩,
    "package p function B() -> 1; struct B \x7b\x7d function A() -> 1; struct B \x7b\x7d", false⟩

/-- Of five declarations of two names, the library's structure and the first structure of the other
source are kept. The other three are reported. -/
theorem duplicates_complete_heap :
    (duplicates ((readAll [shelf, heap]).map Prod.fst) []).map Occurrence.site =
        [(1, 0), (1, 2), (1, 3)] ∧
      (messagesWith .duplicateDeclaration
        (findings ((readAll [shelf, heap]).map Prod.fst) [])).Perm
          ((duplicates ((readAll [shelf, heap]).map Prod.fst) []).map Occurrence.report) :=
  ⟨by decide +kernel, (duplicates_complete _ _).2.2.2.2⟩

end Npl
