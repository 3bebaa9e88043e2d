import Npl.Proofs.Program.Merging

/-!
# Which declaration comes first

Units are merged in their order, so of declarations in different units the one in the earlier unit
comes first. Within a unit the order of merging is not the order of the text: structures overtake
functions. A function therefore loses its name to a structure that follows it in the same unit, and
then it is the function that is reported, although nothing of its name stands before it.

## Main definitions

* `Occurrence.Before` — the order in which declarations stand.
* `Occurrence.MergedBefore` — the order in which they are merged.
* `Occurrence.Overtaken` — a function whose unit has a structure of its name.

## Main results

* `inMergeOrder_pairwise` — merging goes by that order.
* `isKept_iff_first` — what is kept, in terms of the order of the text.
-/

namespace Npl

namespace Occurrence

/-- The declaration stands before the other one: in an earlier unit, or earlier in the same one. -/
def Before (o p : Occurrence) : Prop :=
  o.number < p.number ∨ o.number = p.number ∧ o.index < p.index

instance (o p : Occurrence) : Decidable (o.Before p) :=
  inferInstanceAs (Decidable (_ ∨ _))

/-- A structure and a function of the same unit, wherever they stand in it. -/
def Overtakes (o p : Occurrence) : Prop :=
  o.number = p.number ∧ o.decl.kind = .struct ∧ p.decl.kind = .function

/-- The declaration is merged before the other one: it overtakes that one, or it stands before it
and is not overtaken by it. -/
def MergedBefore (o p : Occurrence) : Prop :=
  o.Overtakes p ∨ o.Before p ∧ ¬ p.Overtakes o

/-- Nothing of the same name stands before the declaration. -/
def IsFirst (units : List SourceUnit) (o : Occurrence) : Prop :=
  ∀ p ∈ occurrences units, p.key = o.key → ¬ p.Before o

instance (units : List SourceUnit) (o : Occurrence) : Decidable (o.IsFirst units) :=
  inferInstanceAs (Decidable (∀ p ∈ occurrences units, _ → _))

/-- A function whose unit declares a structure of that name. -/
def Overtaken (o : Occurrence) : Prop :=
  o.decl.kind = .function ∧ o.unit.DeclaresStruct o.decl.name

instance (o : Occurrence) : Decidable o.Overtaken :=
  inferInstanceAs (Decidable (_ ∧ _))

variable {o p : Occurrence}

theorem MergedBefore.asymm (h : o.MergedBefore p) : ¬ p.MergedBefore o := by
  rcases h with ⟨hnumber, hstruct, hfunction⟩ | ⟨hbefore, hovertakes⟩
  · rintro (⟨-, hstruct', -⟩ | ⟨-, hnot⟩)
    · rw [hfunction] at hstruct'
      cases hstruct'
    · exact hnot ⟨hnumber, hstruct, hfunction⟩
  · rintro (hovertakes' | ⟨hbefore', -⟩)
    · exact hovertakes hovertakes'
    · simp only [Before] at hbefore hbefore'
      omega

end Occurrence

/-! ### The order of merging -/

/-- In a list that is sorted by an order, the first member with a property is the one that has it
and has no such member before it. -/
theorem find?_eq_some_iff_of_pairwise {α : Type} {R : α → α → Prop} {l : List α} {P : α → Bool}
    {a : α} (hasymm : ∀ {b c}, R b c → ¬ R c b) (hl : l.Pairwise R) (ha : a ∈ l) :
    l.find? P = some a ↔ P a = true ∧ ∀ b ∈ l, P b = true → ¬ R b a := by
  constructor
  · intro hfind
    obtain ⟨hPa, before, after, rfl, hbefore⟩ := List.find?_eq_some_iff_append.1 hfind
    refine ⟨hPa, fun b hb hPb hR => ?_⟩
    rcases List.mem_append.1 hb with hb | hb
    · exact absurd hPb (by simpa using hbefore b hb)
    · rcases List.mem_cons.1 hb with rfl | hb
      · exact hasymm hR hR
      · exact hasymm hR ((List.pairwise_cons.1 (List.pairwise_append.1 hl).2.1).1 b hb)
  · rintro ⟨hPa, hleast⟩
    obtain ⟨before, after, rfl⟩ := List.append_of_mem ha
    refine List.find?_eq_some_iff_append.2 ⟨hPa, before, after, rfl, fun b hb => ?_⟩
    have hR : R b a := (List.pairwise_append.1 hl).2.2 b hb a List.mem_cons_self
    simpa using fun hPb => hleast b (List.mem_append_left _ hb) hPb hR

section

variable {units : List SourceUnit} {u : SourceUnit} {i : Nat} {o p : Occurrence}

/-- Of a kind, the declarations of a unit are merged as they stand. -/
theorem SourceUnit.occurrencesOf_pairwise (u : SourceUnit) (i : Nat) (kind : EntryKind) :
    (u.occurrencesOf i kind).Pairwise Occurrence.MergedBefore := by
  have hindices : (u.occurrences i).Pairwise fun o p => o.index < p.index := by
    rw [List.pairwise_iff_getElem]
    intro j k hj hk hlt
    simpa [occurrences] using hlt
  refine (hindices.filter _).imp_of_mem fun {o p} ho hp hlt => ?_
  obtain ⟨ho, hkind⟩ := mem_occurrencesOf_iff.1 ho
  obtain ⟨hp, hkind'⟩ := mem_occurrencesOf_iff.1 hp
  have hnumber : o.number = p.number :=
    (mem_occurrences_iff.1 ho).1.trans (mem_occurrences_iff.1 hp).1.symm
  refine .inr ⟨.inr ⟨hnumber, hlt⟩, fun hovertakes => ?_⟩
  obtain ⟨-, hstruct, hfunction⟩ := hovertakes
  rw [hkind] at hfunction
  rw [hkind'] at hstruct
  exact absurd (hstruct.symm.trans hfunction) (by decide)

/-- **Merging goes by the order of merging.** -/
theorem inMergeOrder_pairwise (units : List SourceUnit) :
    (inMergeOrder units).Pairwise Occurrence.MergedBefore := by
  rw [inMergeOrder, List.pairwise_flatMap]
  constructor
  · rintro ⟨u, i⟩ -
    refine List.pairwise_append.2
      ⟨u.occurrencesOf_pairwise i _, u.occurrencesOf_pairwise i _, fun o ho p hp => ?_⟩
    obtain ⟨ho, hstruct⟩ := mem_occurrencesOf_iff.1 ho
    obtain ⟨hp, hfunction⟩ := mem_occurrencesOf_iff.1 hp
    have hnumber : o.number = p.number :=
      (SourceUnit.mem_occurrences_iff.1 ho).1.trans (SourceUnit.mem_occurrences_iff.1 hp).1.symm
    exact .inl ⟨hnumber, hstruct, hfunction⟩
  · have hnumbers : units.zipIdx.Pairwise fun ui vj => ui.2 < vj.2 := by
      rw [List.pairwise_iff_getElem]
      intro j k hj hk hlt
      simpa using hlt
    refine hnumbers.imp fun {ui vj} hlt o ho p hp => ?_
    have ho := (SourceUnit.mem_occurrences_iff.1 (SourceUnit.mem_inMergeOrder_iff.1 ho)).1
    have hp := (SourceUnit.mem_occurrences_iff.1 (SourceUnit.mem_inMergeOrder_iff.1 hp)).1
    refine .inr ⟨.inl (by omega), fun hovertakes => ?_⟩
    exact absurd hovertakes.1 (by omega)

/-! ### What is kept, by the order of the text -/

/-- What is kept has nothing of its name before it in the order of merging. -/
theorem Occurrence.isKept_iff_forall (ho : o ∈ occurrences units) :
    o.IsKept units ↔ ∀ p ∈ occurrences units, p.key = o.key → ¬ p.MergedBefore o := by
  rw [Occurrence.isKept_iff ho, find?_eq_some_iff_of_pairwise Occurrence.MergedBefore.asymm
    (inMergeOrder_pairwise units) (mem_inMergeOrder_iff.2 ho)]
  simp [mem_inMergeOrder_iff]

theorem Tree.mem_structs_iff {t : Tree} {d : StructDecl} :
    d ∈ t.structs ↔ .struct d ∈ t.declarations := by
  rw [structs, List.mem_filterMap]
  constructor
  · rintro ⟨declaration, hmem, hd⟩
    cases declaration with
    | struct d' =>
        obtain rfl := Option.some.inj hd
        exact hmem
    | function d' => cases hd
  · exact fun hmem => ⟨_, hmem, rfl⟩

/-- A declaration is overtaken by one of those of its name. -/
theorem Occurrence.overtaken_iff (ho : o ∈ occurrences units) :
    o.Overtaken ↔ ∃ p ∈ occurrences units, p.key = o.key ∧ p.Overtakes o := by
  obtain ⟨hunit, hdecl⟩ := mem_occurrences_iff.1 ho
  constructor
  · rintro ⟨hfunction, d, hd, hname⟩
    obtain ⟨j, hj⟩ := List.getElem?_of_mem (Tree.mem_structs_iff.1 hd)
    exact ⟨⟨o.number, o.unit, j, .struct d⟩, mem_occurrences_iff.2 ⟨hunit, hj⟩,
      Prod.ext rfl hname, rfl, rfl, hfunction⟩
  · rintro ⟨p, hp, hkey, hnumber, hstruct, hfunction⟩
    obtain ⟨hunit', hdecl'⟩ := mem_occurrences_iff.1 hp
    rw [hnumber, hunit] at hunit'
    obtain hsame := Option.some.inj hunit'
    obtain ⟨-, hname⟩ := Prod.mk.inj hkey
    rw [← hsame] at hdecl'
    cases hd : p.decl with
    | struct d =>
        rw [hd] at hdecl' hname
        exact ⟨hfunction, d, Tree.mem_structs_iff.2 (List.mem_of_getElem? hdecl'), hname⟩
    | function d =>
        rw [hd] at hstruct
        cases hstruct

/-- **The first declaration of a name is kept, unless a structure overtakes it.** A declaration is
kept exactly if no structure overtakes it and whatever stands before it of its name is overtaken by
it. So the first declaration of a name is kept and not reported except where it is a function and
its unit has a structure of that name, and what is reported either has another declaration of its
name before it or is such a function. -/
theorem isKept_iff_first (units : List SourceUnit) (skip : List Path) :
    (∀ o ∈ occurrences units, o.IsKept units ↔ ¬ o.Overtaken ∧
      ∀ p ∈ occurrences units, p.key = o.key → p.Before o → o.Overtakes p) ∧
    (∀ o ∈ occurrences units, o.IsFirst units → (o.IsKept units ↔ ¬ o.Overtaken)) ∧
    (messagesWith .duplicateDeclaration (findings units skip)).Perm
      ((duplicates units skip).map Occurrence.report) ∧
    (∀ o ∈ duplicates units skip, ¬ o.IsKept units) ∧
    (∀ o ∈ duplicates units skip,
      o.Overtaken ∨ ∃ p ∈ occurrences units, p.key = o.key ∧ p.Before o) := by
  have hkept : ∀ o ∈ occurrences units, o.IsKept units ↔ ¬ o.Overtaken ∧
      ∀ p ∈ occurrences units, p.key = o.key → p.Before o → o.Overtakes p := by
    intro o ho
    rw [Occurrence.isKept_iff_forall ho, Occurrence.overtaken_iff ho]
    constructor
    · intro hleast
      refine ⟨fun ⟨p, hp, hkey, hovertakes⟩ => hleast p hp hkey (.inl hovertakes),
        fun p hp hkey hbefore => ?_⟩
      by_contra hovertakes
      exact hleast p hp hkey (.inr ⟨hbefore, hovertakes⟩)
    · rintro ⟨hovertaken, hbefore⟩ p hp hkey (hovertakes | ⟨hstands, hovertakes⟩)
      · exact hovertaken ⟨p, hp, hkey, hovertakes⟩
      · exact hovertakes (hbefore p hp hkey hstands)
  refine ⟨hkept, fun o ho hfirst => ?_, messagesWith_duplicateDeclaration_perm units skip,
    fun o ho => (mem_duplicates_iff.1 ho).2.2, fun o ho => ?_⟩
  · rw [hkept o ho, and_iff_left_iff_imp]
    exact fun _ p hp hkey hbefore => absurd hbefore (hfirst p hp hkey)
  · obtain ⟨ho, -, hlost⟩ := mem_duplicates_iff.1 ho
    rw [hkept o ho] at hlost
    by_contra hneither
    obtain ⟨hovertaken, hfirst⟩ := not_or.1 hneither
    exact hlost ⟨hovertaken, fun p hp hkey hbefore =>
      absurd ⟨p, hp, hkey, hbefore⟩ hfirst⟩

end

/-- A function and behind it a structure of the same name. -/
def trailed : Source :=
  ⟨"file:///a.npl", ⟨.single, ["a.npl"]⟩,
    "package p\nfunction S() -> 1;\nstruct S \x7b\x7d\n", false⟩

/-- The function is the first declaration of its name, and it is the one that is reported. -/
theorem isKept_iff_first_trailed :
    ∃ o ∈ occurrences [(SourceUnit.read trailed).1],
      o.IsFirst [(SourceUnit.read trailed).1] ∧ o.Overtaken ∧
        ¬ o.IsKept [(SourceUnit.read trailed).1] ∧
        o ∈ duplicates [(SourceUnit.read trailed).1] [] := by
  have hfound : ∃ o ∈ occurrences [(SourceUnit.read trailed).1],
      o.unit.isChecked [] = true ∧ o.IsFirst [(SourceUnit.read trailed).1] ∧ o.Overtaken := by
    decide +kernel
  obtain ⟨o, ho, hchecked, hfirst, hovertaken⟩ := hfound
  have hlost : ¬ o.IsKept [(SourceUnit.read trailed).1] := fun hkept =>
    ((isKept_iff_first _ []).2.1 o ho hfirst).1 hkept hovertaken
  exact ⟨o, ho, hfirst, hovertaken, hlost, mem_duplicates_iff.2 ⟨ho, hchecked, hlost⟩⟩

end Npl
