import Mathlib
import Npl.Proofs.Program.Order
import Npl.Proofs.Program.References

/-!
# What names mean

A name of a package belongs to the first unit that declares it, and within that unit structures go
before functions. What a unit can refer to follows from that: the declarations of its own package, and
those that its use clauses name. A use clause that names nothing still takes its name out of
question, so that one mistake is told once.

The check is held against these rules. It reports every use clause that names nothing, every type
name at any depth that means nothing, and every call of a name that means nothing, each of them once
and nothing else of the kind.

## Main definitions

* `Kept` — the declaration that a name of a package belongs to.
* `SourceUnit.MeansType`, `SourceUnit.MeansCallee`, `SourceUnit.Excused` — the rules.
* `SourceUnit.Resolved` — everything that a unit refers to means something.

## Main results

* `Scope.kind?_eq_some_iff_kept` — looking up a name finds the declaration that it belongs to.
* `SourceUnit.knowsType_iff`, `SourceUnit.callable_iff` — what the check admits is what the rules
  admit.
* `findings_about_names` — what the check tells about names.
-/

namespace Npl

/-! ### Declarations -/

namespace SourceUnit

/-- The unit declares a structure of that name. -/
def DeclaresStruct (u : SourceUnit) (name : String) : Prop :=
  ∃ d ∈ u.tree.structs, d.name = name

instance (u : SourceUnit) (name : String) : Decidable (u.DeclaresStruct name) :=
  inferInstanceAs (Decidable (∃ d ∈ u.tree.structs, d.name = name))

/-- The unit declares a function of that name. -/
def DeclaresFunction (u : SourceUnit) (name : String) : Prop :=
  ∃ d ∈ u.tree.functions, d.name = name

instance (u : SourceUnit) (name : String) : Decidable (u.DeclaresFunction name) :=
  inferInstanceAs (Decidable (∃ d ∈ u.tree.functions, d.name = name))

/-- The unit declares that name of that package. -/
def Declares (u : SourceUnit) (package name : String) : Prop :=
  u.package = package ∧ (u.DeclaresStruct name ∨ u.DeclaresFunction name)

/-- The unit declares that name of that package, and first as a declaration of the given kind. -/
def DeclaresAs (u : SourceUnit) (kind : EntryKind) (package name : String) : Prop :=
  u.package = package ∧
    match kind with
    | .struct => u.DeclaresStruct name
    | .function => u.DeclaresFunction name ∧ ¬ u.DeclaresStruct name

end SourceUnit

/-- Some unit declares that name of that package. -/
def Declared (units : List SourceUnit) (package name : String) : Prop :=
  ∃ u ∈ units, u.Declares package name

/-- The name of the package belongs to a declaration of the given kind: the first unit that declares
the name declares a structure of that name, or a function and no structure. -/
def Kept (units : List SourceUnit) (kind : EntryKind) (package name : String) : Prop :=
  ∃ before u after, units = before ++ u :: after ∧ (∀ v ∈ before, ¬ v.Declares package name) ∧
    u.DeclaresAs kind package name

namespace Scope

variable {units : List SourceUnit} {u : SourceUnit} {package name : String} {kind : EntryKind}

/-- What a name is can be told from the names and what they are, without the declarations. -/
theorem kind?_eq_kinds (s : Scope) (package name : String) :
    s.kind? package name = (s.kinds.find? fun e => e.1 = (package, name)).map Prod.snd := by
  have hsame : (fun e : Entry => decide (e.package = package ∧ e.name = name)) =
      (fun e => decide (e.1 = (package, name))) ∘ fun e : Entry => (e.key, e.kind) := by
    funext e
    simp [Entry.key, Prod.ext_iff]
  simp only [kind?, find?, kinds, List.find?_map, Option.map_map, ← hsame, Bool.decide_and]
  rfl

/-- What a name is for the first of several units, if it declares the name, and for the others
otherwise. -/
theorem kind?_cons (u : SourceUnit) (units : List SourceUnit) (package name : String) :
    (ofUnits (u :: units)).kind? package name =
      ((ofUnits [u]).kind? package name).or ((ofUnits units).kind? package name) := by
  simp only [kind?_eq_kinds, kinds_ofUnits, List.flatMap_cons, List.flatMap_nil, List.append_nil,
    List.find?_append]
  cases (u.kinds.find? fun e => e.1 = (package, name)) <;> rfl

/-- Among declarations of one kind, a name is found if one of them has it. -/
theorem find?_named {α : Type} (l : List α) (f : α → String) (own package name : String)
    (kind : EntryKind) :
    ((l.map fun d => ((own, f d), kind)).find? fun e => e.1 = (package, name)).map Prod.snd =
      if own = package ∧ ∃ d ∈ l, f d = name then some kind else none := by
  induction l with
  | nil => simp
  | cons d l ih =>
      rw [List.map_cons]
      by_cases hd : (own, f d) = (package, name)
      · obtain ⟨hown, hname⟩ := Prod.mk.inj hd
        rw [List.find?_cons_of_pos (by simpa using hd)]
        simp [hown, hname]
      · rw [List.find?_cons_of_neg (by simpa using hd), ih]
        have hother : own = package → f d ≠ name := fun hown hname => hd (Prod.ext hown hname)
        refine if_congr ?_ rfl rfl
        simp only [List.exists_mem_cons_iff]
        exact and_congr_right fun hown => (or_iff_right (hother hown)).symm

/-- What a name is for a single unit: a structure if it declares one of that name. -/
theorem kind?_single (u : SourceUnit) (package name : String) :
    (ofUnits [u]).kind? package name =
      (if u.package = package ∧ u.DeclaresStruct name then some .struct else none).or
        (if u.package = package ∧ u.DeclaresFunction name then some .function else none) := by
  have hstruct := find?_named u.tree.structs StructDecl.name u.package package name .struct
  have hfunction := find?_named u.tree.functions FunctionDecl.name u.package package name .function
  have hboth : (ofUnits [u]).kind? package name =
      (((u.tree.structs.map fun d => ((u.package, d.name), EntryKind.struct)).find?
          fun e => e.1 = (package, name)).map Prod.snd).or
        (((u.tree.functions.map fun d => ((u.package, d.name), EntryKind.function)).find?
          fun e => e.1 = (package, name)).map Prod.snd) := by
    simp only [kind?_eq_kinds, kinds_ofUnits, List.flatMap_cons, List.flatMap_nil, List.append_nil,
      SourceUnit.kinds, List.find?_append]
    cases List.find? _ (u.tree.structs.map _) <;> rfl
  rw [hboth, hstruct, hfunction]
  rfl

theorem kind?_single_eq_some_iff :
    (ofUnits [u]).kind? package name = some kind ↔ u.DeclaresAs kind package name := by
  rw [kind?_single]
  unfold SourceUnit.DeclaresAs
  by_cases hpackage : u.package = package <;> by_cases hstruct : u.DeclaresStruct name <;>
    by_cases hfunction : u.DeclaresFunction name <;> cases kind <;>
    simp [hpackage, hstruct, hfunction]

theorem kind?_single_eq_none_iff :
    (ofUnits [u]).kind? package name = none ↔ ¬ u.Declares package name := by
  rw [kind?_single]
  unfold SourceUnit.Declares
  by_cases hpackage : u.package = package <;> by_cases hstruct : u.DeclaresStruct name <;>
    by_cases hfunction : u.DeclaresFunction name <;> simp [hpackage, hstruct, hfunction]

/-- The first unit decides about the names that it declares. -/
theorem kept_cons_iff :
    Kept (u :: units) kind package name ↔
      u.DeclaresAs kind package name ∨ ¬ u.Declares package name ∧ Kept units kind package name := by
  constructor
  · rintro ⟨before, v, after, hsplit, hbefore, hv⟩
    cases before with
    | nil =>
        obtain ⟨rfl, -⟩ := List.cons.inj hsplit
        exact .inl hv
    | cons w before =>
        obtain ⟨rfl, htail⟩ := List.cons.inj hsplit
        rw [List.forall_mem_cons] at hbefore
        exact .inr ⟨hbefore.1, before, v, after, htail, hbefore.2, hv⟩
  · rintro (hu | ⟨hu, before, v, after, rfl, hbefore, hv⟩)
    · exact ⟨[], u, units, rfl, by simp, hu⟩
    · exact ⟨u :: before, v, after, rfl, List.forall_mem_cons.2 ⟨hu, hbefore⟩, hv⟩

/-- Looking up a name of a package tells what the declaration is that it belongs to. -/
theorem kind?_eq_some_iff_kept :
    (ofUnits units).kind? package name = some kind ↔ Kept units kind package name := by
  induction units with
  | nil => simp [Kept, ofUnits, kind?, find?]
  | cons u units ih =>
      rw [kind?_cons, Option.or_eq_some_iff, kind?_single_eq_some_iff, kind?_single_eq_none_iff,
        ih, kept_cons_iff]

/-- Looking up a name of a package finds something exactly if some unit declares it. -/
theorem isSome_kind?_iff :
    ((ofUnits units).kind? package name).isSome = true ↔ Declared units package name := by
  induction units with
  | nil => simp [Declared, ofUnits, kind?, find?]
  | cons u units ih =>
      have hfirst : ((ofUnits [u]).kind? package name).isSome = true ↔ u.Declares package name := by
        rw [← not_iff_not, ← kind?_single_eq_none_iff]
        simp
      rw [kind?_cons, Option.isSome_or, Bool.or_eq_true, hfirst, ih, Declared, Declared,
        List.exists_mem_cons_iff]

end Scope

/-! ### What a unit can refer to -/

namespace SourceUnit

/-- A use clause of the unit is for that name, and names nothing. -/
def Excused (units : List SourceUnit) (u : SourceUnit) (name : String) : Prop :=
  ∃ c ∈ u.tree.uses, c.name.simpleName = name ∧ ¬ Declared units c.name.package name

/-- The unit has a use clause that names a declaration of the given kind. -/
def Imports (units : List SourceUnit) (u : SourceUnit) (kind : EntryKind) (name : String) : Prop :=
  ∃ c ∈ u.tree.uses, c.name.simpleName = name ∧ Kept units kind c.name.package name

/-- The name is a type for the unit. -/
inductive MeansType (units : List SourceUnit) (u : SourceUnit) (name : String) : Prop
  | builtin (h : name ∈ builtinTypes)
  | own (h : Kept units .struct u.package name)
  | imported (h : Imports units u .struct name)

/-- The name can be called in the body of a function of the unit. -/
inductive MeansCallee (units : List SourceUnit) (u : SourceUnit) (d : FunctionDecl)
    (name : String) : Prop
  | param (h : ∃ b ∈ d.params, b.name = name)
  | declared (h : Body.DeclaresVariable d.body name)
  | innerParam (h : Body.DeclaresParam d.body name)
  | own (h : Kept units .function u.package name)
  | imported (h : Imports units u .function name)
  | builtin (h : name ∈ builtinFunctions)
  | type (h : u.MeansType units name)

/-- Everything that a unit refers to means something. -/
structure Resolved (units : List SourceUnit) (u : SourceUnit) : Prop where
  uses : ∀ c ∈ u.tree.uses, Declared units c.name.package c.name.simpleName
  types : ∀ r ∈ u.typeRefs.flatMap TypeRef.nested, u.MeansType units r.name
  calls : ∀ d ∈ u.tree.functions, ∀ t ∈ Body.calls d.body, u.MeansCallee units d t.text

variable {units : List SourceUnit} {u : SourceUnit} {name : String} {kind : EntryKind}

/-- A use clause that is found to refer to nothing names nothing. -/
theorem isNone_resolve?_iff {c : UseClause} :
    (c.resolve? (Scope.ofUnits units)).isNone = true ↔
      ¬ Declared units c.name.package c.name.simpleName := by
  rw [← Scope.isSome_kind?_iff, UseClause.resolve?]
  simp

/-- A use clause is found to refer to what the name that it names is kept as. -/
theorem resolve?_eq_some_iff {c : UseClause} :
    c.resolve? (Scope.ofUnits units) = some kind ↔
      Kept units kind c.name.package c.name.simpleName :=
  Scope.kind?_eq_some_iff_kept

/-- What use clauses make known is what they name, and what they excuse. -/
theorem imports_iff :
    u.imports (Scope.ofUnits units) kind name = true ↔
      Imports units u kind name ∨ Excused units u name := by
  simp only [imports, List.any_eq_true, Bool.and_eq_true, Bool.or_eq_true, decide_eq_true_eq,
    isNone_resolve?_iff, resolve?_eq_some_iff, Imports, Excused]
  constructor
  · rintro ⟨c, hc, rfl, hnothing | hkept⟩
    · exact .inr ⟨c, hc, rfl, hnothing⟩
    · exact .inl ⟨c, hc, rfl, hkept⟩
  · rintro (⟨c, hc, rfl, hkept⟩ | ⟨c, hc, rfl, hnothing⟩)
    · exact ⟨c, hc, rfl, .inr hkept⟩
    · exact ⟨c, hc, rfl, .inl hnothing⟩

/-- The names that the check admits as types. -/
theorem knowsType_iff :
    u.knowsType (Scope.ofUnits units) name = true ↔
      u.MeansType units name ∨ Excused units u name := by
  simp only [knowsType, Bool.or_eq_true, List.contains_iff_mem, decide_eq_true_eq,
    Scope.kind?_eq_some_iff_kept, imports_iff]
  constructor
  · rintro ((h | h) | h | h)
    · exact .inl (.builtin h)
    · exact .inl (.own h)
    · exact .inl (.imported h)
    · exact .inr h
  · rintro ((h | h | h) | h)
    · exact .inl (.inl h)
    · exact .inl (.inr h)
    · exact .inr (.inl h)
    · exact .inr (.inr h)

/-- The names that the check admits in calls. -/
theorem callable_iff {d : FunctionDecl} :
    u.callable (Scope.ofUnits units) d name = true ↔
      u.MeansCallee units d name ∨ Excused units u name := by
  simp only [callable, knowsFunction, Bool.or_eq_true, List.contains_iff_mem, List.mem_map,
    decide_eq_true_eq, Body.mem_declaredNames_iff, Scope.kind?_eq_some_iff_kept, imports_iff,
    knowsType_iff]
  constructor
  · rintro ((((h | h | h) | h | h | h) | h) | h | h)
    · exact .inl (.param h)
    · exact .inl (.declared h)
    · exact .inl (.innerParam h)
    · exact .inl (.own h)
    · exact .inl (.imported h)
    · exact .inr h
    · exact .inl (.builtin h)
    · exact .inl (.type h)
    · exact .inr h
  · rintro ((h | h | h | h | h | h | h) | h)
    · exact .inl (.inl (.inl (.inl h)))
    · exact .inl (.inl (.inl (.inr (.inl h))))
    · exact .inl (.inl (.inl (.inr (.inr h))))
    · exact .inl (.inl (.inr (.inl h)))
    · exact .inl (.inl (.inr (.inr (.inl h))))
    · exact .inl (.inr h)
    · exact .inr (.inl h)
    · exact .inr (.inr h)

instance (units : List SourceUnit) (package name : String) :
    Decidable (Declared units package name) :=
  decidable_of_iff _ Scope.isSome_kind?_iff

instance (units : List SourceUnit) (u : SourceUnit) (name : String) :
    Decidable (Excused units u name) :=
  inferInstanceAs (Decidable (∃ c ∈ u.tree.uses, c.name.simpleName = name ∧ _))

/-- The reference is to a type that means nothing. -/
def UnknownType (units : List SourceUnit) (u : SourceUnit) (r : TypeRef) : Prop :=
  ¬ (u.MeansType units r.name ∨ Excused units u r.name)

instance (units : List SourceUnit) (u : SourceUnit) : DecidablePred (UnknownType units u) := fun _ =>
  decidable_of_iff _ (not_congr knowsType_iff)

/-- The token calls something that means nothing. -/
def UnknownCallee (units : List SourceUnit) (u : SourceUnit) (d : FunctionDecl) (t : Token) : Prop :=
  ¬ (u.MeansCallee units d t.text ∨ Excused units u t.text)

instance (units : List SourceUnit) (u : SourceUnit) (d : FunctionDecl) :
    DecidablePred (UnknownCallee units u d) := fun _ =>
  decidable_of_iff _ (not_congr callable_iff)

/-! ### Findings of a kind -/

section

variable {s : Scope} {i : Nat}

theorem code_of_mem_duplicateErrors {m : Message} (h : m ∈ u.duplicateErrors s i) :
    m.code = .duplicateDeclaration := by
  obtain ⟨e, -, hreport⟩ := List.mem_filterMap.1 h
  simp only [Option.ite_none_right_eq_some, Option.some.injEq] at hreport
  obtain ⟨-, rfl⟩ := hreport
  rfl

theorem code_of_mem_importErrors {m : Message} (h : m ∈ u.importErrors s) :
    m.code = .unresolvedImport := by
  obtain ⟨c, -, rfl⟩ := List.mem_map.1 h
  rfl

theorem code_of_mem_typeErrors {m : Message} (h : m ∈ u.typeErrors s) : m.code = .unknownName := by
  obtain ⟨r, -, rfl⟩ := List.mem_map.1 h
  rfl

theorem code_of_mem_callErrors {d : FunctionDecl} {m : Message} (h : m ∈ u.callErrors s d) :
    m.code = .unknownName := by
  obtain ⟨t, -, rfl⟩ := List.mem_map.1 h
  rfl

theorem code_of_mem_returnErrors {d : FunctionDecl} {m : Message} (h : m ∈ u.returnErrors d) :
    m.code = .missingReturn := by
  unfold returnErrors at h
  split at h
  · simp at h
  · split at h
    · obtain rfl := List.mem_singleton.1 h
      rfl
    · simp at h

theorem code_of_mem_warnings {m : Message} (h : m ∈ u.warnings) : m.code = .unusedVariable := by
  obtain ⟨d, -, hm⟩ := List.mem_flatMap.1 h
  obtain ⟨v, -, rfl⟩ := List.mem_map.1 hm
  rfl

end

end SourceUnit

/-- The messages of a kind. -/
def messagesWith (code : Code) (messages : List Message) : List Message :=
  messages.filter fun m => m.code = code

section

variable {code other : Code} {ms ms' : List Message}

@[simp] theorem messagesWith_append :
    messagesWith code (ms ++ ms') = messagesWith code ms ++ messagesWith code ms' :=
  List.filter_append ..

theorem messagesWith_flatMap {α : Type} (l : List α) (f : α → List Message) :
    messagesWith code (l.flatMap f) = l.flatMap fun a => messagesWith code (f a) :=
  List.filter_flatMap ..

/-- Messages that are all of one kind are all picked out, or none of them. -/
theorem messagesWith_eq (h : ∀ m ∈ ms, m.code = other) :
    messagesWith code ms = if other = code then ms else [] := by
  unfold messagesWith
  split
  · next heq => exact List.filter_eq_self.2 fun m hm => by simpa using (h m hm).trans heq
  · next hne => exact List.filter_eq_nil_iff.2 fun m hm => by simpa [h m hm] using hne

end

namespace SourceUnit

variable {u : SourceUnit} {s : Scope} {i : Nat}

theorem messagesWith_unresolvedImport_errors :
    messagesWith .unresolvedImport (u.errors s i) = u.importErrors s := by
  simp [errors, messagesWith_flatMap, messagesWith_eq fun _ => code_of_mem_duplicateErrors,
    messagesWith_eq fun _ => code_of_mem_importErrors,
    messagesWith_eq fun _ => code_of_mem_typeErrors, messagesWith_eq fun _ => code_of_mem_callErrors,
    messagesWith_eq fun _ => code_of_mem_returnErrors]

theorem messagesWith_unknownName_errors :
    messagesWith .unknownName (u.errors s i) =
      u.typeErrors s ++ u.tree.functions.flatMap fun d => u.callErrors s d := by
  simp [errors, messagesWith_flatMap, messagesWith_eq fun _ => code_of_mem_duplicateErrors,
    messagesWith_eq fun _ => code_of_mem_importErrors,
    messagesWith_eq fun _ => code_of_mem_typeErrors, messagesWith_eq fun _ => code_of_mem_callErrors,
    messagesWith_eq fun _ => code_of_mem_returnErrors]

/-! ### All findings about names -/

/-- The reports about the use clauses that name nothing. -/
def unresolvedReports (units : List SourceUnit) (u : SourceUnit) : List Message :=
  (u.tree.uses.filter fun c => ¬ Declared units c.name.package c.name.simpleName).map fun c =>
    u.report (.unresolved c.name.text) c.keyword c.name.stop

/-- The reports about the types, at any depth, and the calls of names that mean nothing. -/
def unknownReports (units : List SourceUnit) (u : SourceUnit) : List Message :=
  (((u.typeRefs.flatMap TypeRef.nested).filter (UnknownType units u)).map fun r =>
      u.report (.unknown r.name) r.token r.stop) ++
    u.tree.functions.flatMap fun d =>
      ((Body.calls d.body).filter (UnknownCallee units u d)).map fun t =>
        u.report (.unknown t.text) t t

variable {units : List SourceUnit}

theorem importErrors_eq : u.importErrors (Scope.ofUnits units) = u.unresolvedReports units := by
  rw [importErrors, unresolvedUses, unresolvedReports]
  congr 2
  funext c
  exact Bool.eq_iff_iff.2 (by rw [isNone_resolve?_iff, decide_eq_true_eq])

theorem typeErrors_perm :
    (u.typeErrors (Scope.ofUnits units)).Perm
      (((u.typeRefs.flatMap TypeRef.nested).filter (UnknownType units u)).map fun r =>
        u.report (.unknown r.name) r.token r.stop) := by
  have hunknown : (fun r : TypeRef => !u.knowsType (Scope.ofUnits units) r.name) =
      fun r => decide (UnknownType units u r) := by
    funext r
    refine Bool.eq_iff_iff.2 ?_
    rw [Bool.not_eq_true', ← Bool.not_eq_true, knowsType_iff, decide_eq_true_eq, UnknownType]
  rw [typeErrors, hunknown]
  exact ((TypeRef.levels_perm_nested u.typeRefs).filter _).map _

theorem callErrors_eq (d : FunctionDecl) :
    u.callErrors (Scope.ofUnits units) d =
      ((Body.calls d.body).filter (UnknownCallee units u d)).map fun t =>
        u.report (.unknown t.text) t t := by
  rw [callErrors, Body.freeCalls_eq_calls]
  congr 2
  funext t
  refine Bool.eq_iff_iff.2 ?_
  rw [Bool.not_eq_true', ← Bool.not_eq_true, callable_iff, decide_eq_true_eq, UnknownCallee]

end SourceUnit

/-- All that the check tells, errors and warnings. -/
def findings (units : List SourceUnit) (skip : List Path) : List Message :=
  (check units skip).1 ++ (check units skip).2

/-- All warnings of the check are of one kind. -/
theorem messagesWith_warnings {units : List SourceUnit} {skip : List Path} {code : Code}
    (hcode : code ≠ .unusedVariable) : messagesWith code (check units skip).2 = [] := by
  simp only [check, messagesWith_flatMap]
  refine List.flatMap_eq_nil_iff.2 fun u _ => ?_
  rw [messagesWith_eq fun _ => SourceUnit.code_of_mem_warnings, if_neg hcode.symm]

/-- The errors of a kind are those of the units that are checked, as long as these do not depend on
the numbers of the units. -/
theorem messagesWith_findings {units : List SourceUnit} {skip : List Path} {code : Code}
    {f : SourceUnit → List Message}
    (herrors : ∀ u i, messagesWith code (u.errors (Scope.ofUnits units) i) = f u)
    (hcode : code ≠ .unusedVariable) :
    messagesWith code (findings units skip) = (units.filter (·.isChecked skip)).flatMap f := by
  have hunits : ((units.mapIdx fun i u =>
      if u.isChecked skip then u.errors (Scope.ofUnits units) i else []).map (messagesWith code)) =
        units.mapIdx fun _ u => if u.isChecked skip then f u else [] := by
    refine List.ext_getElem (by simp) fun i hi _ => ?_
    simp only [List.getElem_map, List.getElem_mapIdx]
    split
    · exact herrors _ _
    · rfl
  rw [findings, messagesWith_append, messagesWith_warnings hcode, List.append_nil, flatMap_filter,
    ← flatten_mapIdx_const, ← hunits]
  exact List.filter_flatten ..

/-- The findings about use clauses. -/
theorem messagesWith_unresolvedImport (units : List SourceUnit) (skip : List Path) :
    messagesWith .unresolvedImport (findings units skip) =
      (units.filter (·.isChecked skip)).flatMap (SourceUnit.unresolvedReports units) :=
  messagesWith_findings (fun u i => by
    rw [SourceUnit.messagesWith_unresolvedImport_errors, SourceUnit.importErrors_eq]) (by decide)

/-- The findings about types and calls. -/
theorem messagesWith_unknownName_perm (units : List SourceUnit) (skip : List Path) :
    (messagesWith .unknownName (findings units skip)).Perm
      ((units.filter (·.isChecked skip)).flatMap (SourceUnit.unknownReports units)) := by
  rw [messagesWith_findings (fun u i => SourceUnit.messagesWith_unknownName_errors) (by decide)]
  refine List.Perm.flatMap_left _ fun u _ => ?_
  simp only [SourceUnit.callErrors_eq]
  exact SourceUnit.typeErrors_perm.append_right _

/-- A unit about which there is no finding of either kind refers to nothing that is not there. -/
theorem SourceUnit.resolved_of_reports {units : List SourceUnit} {u : SourceUnit}
    (huses : u.unresolvedReports units = []) (hnames : u.unknownReports units = []) :
    u.Resolved units := by
  rw [unresolvedReports, List.map_eq_nil_iff, List.filter_eq_nil_iff] at huses
  rw [unknownReports, List.append_eq_nil_iff, List.map_eq_nil_iff, List.filter_eq_nil_iff,
    List.flatMap_eq_nil_iff] at hnames
  have hdeclared : ∀ c ∈ u.tree.uses, Declared units c.name.package c.name.simpleName := by
    simpa using huses
  -- Without use clauses that name nothing, no name is excused.
  have hexcused : ∀ name, ¬ Excused units u name := by
    rintro _ ⟨c, hc, rfl, hnothing⟩
    exact hnothing (hdeclared c hc)
  refine ⟨hdeclared, fun r hr => ?_, fun d hd t ht => ?_⟩
  · have hknown : ¬ UnknownType units u r := by simpa using hnames.1 r hr
    exact (not_not.1 hknown).resolve_right (hexcused _)
  · have hcalls := hnames.2 d hd
    rw [List.map_eq_nil_iff, List.filter_eq_nil_iff] at hcalls
    have hknown : ¬ UnknownCallee units u d t := by simpa using hcalls t ht
    exact (not_not.1 hknown).resolve_right (hexcused _)

/-- Everything that the sources of a successful compilation refer to means something. -/
theorem resolved_of_success {sources : List Source} {warnings : List Message}
    (h : compile sources = .finished (.success warnings)) {s : Source} (hs : s ∈ sources)
    (hlibrary : s.library = false) :
    (SourceUnit.read s).1.Resolved ((readAll sources).map Prod.fst) := by
  obtain ⟨-, -, hcheck⟩ := compile_eq_success_iff.1 h
  have hunit : (SourceUnit.read s).1 ∈
      ((readAll sources).map Prod.fst).filter (·.isChecked []) := by
    refine List.mem_filter.2 ⟨List.mem_map_of_mem (List.mem_map_of_mem hs), ?_⟩
    simpa [SourceUnit.isChecked, SourceUnit.read] using hlibrary
  have hnone : ∀ code, code ≠ Code.unusedVariable →
      messagesWith code (findings ((readAll sources).map Prod.fst) []) = [] := by
    intro code hcode
    rw [findings, messagesWith_append, messagesWith_warnings hcode, hcheck]
    rfl
  have huses := messagesWith_unresolvedImport ((readAll sources).map Prod.fst) []
  have hnames := messagesWith_unknownName_perm ((readAll sources).map Prod.fst) []
  rw [hnone _ (by decide)] at huses hnames
  exact SourceUnit.resolved_of_reports
    (List.flatMap_eq_nil_iff.1 huses.symm _ hunit)
    (List.flatMap_eq_nil_iff.1 hnames.nil_eq.symm _ hunit)

/-- **Names are resolved soundly and completely.** Of the units that are checked, the check reports
each use clause that names no declaration, and no other; it reports each type reference at any depth
and each call of a name that means nothing and that no such use clause excuses, each of them once, and
no other. So everything that the sources of a successful compilation refer to means something. -/
theorem findings_about_names (units : List SourceUnit) (skip : List Path) :
    messagesWith .unresolvedImport (findings units skip) =
      (units.filter (·.isChecked skip)).flatMap (SourceUnit.unresolvedReports units) ∧
    (messagesWith .unknownName (findings units skip)).Perm
      ((units.filter (·.isChecked skip)).flatMap (SourceUnit.unknownReports units)) ∧
    ∀ (sources : List Source) (warnings : List Message),
      compile sources = .finished (.success warnings) →
        ∀ s ∈ sources, s.library = false →
          (SourceUnit.read s).1.Resolved ((readAll sources).map Prod.fst) :=
  ⟨messagesWith_unresolvedImport units skip, messagesWith_unknownName_perm units skip,
    fun _ _ h _ hs hlibrary => resolved_of_success h hs hlibrary⟩

/-- A library that declares a structure. -/
def toolbox : Source :=
  ⟨"file:///b.npl", ⟨.single, ["b.npl"]⟩, "package b struct B \x7b\x7d", true⟩

/-- A source that uses the structure inside another type and in a call, and calls a parameter of a
function inside its body. -/
def caller : Source :=
  ⟨"file:///a.npl", ⟨.single, ["a.npl"]⟩,
    "package a use b.B function f(x: List<B>) -> setOf(function(y: B) -> y(B()));", false⟩

/-- In the caller everything means something, whether it is declared there, built in, or declared in
the library. -/
theorem findings_about_names_toolbox :
    compile [caller, toolbox] = .finished (.success []) ∧ caller ∈ [caller, toolbox] ∧
      caller.library = false ∧
      (SourceUnit.read caller).1.Resolved ((readAll [caller, toolbox]).map Prod.fst) := by
  have hcompiled : compile [caller, toolbox] = .finished (.success []) := by cbv
  have hmem : caller ∈ [caller, toolbox] := List.mem_cons_self
  have hlibrary : caller.library = false := rfl
  exact ⟨hcompiled, hmem, hlibrary,
    (findings_about_names [] []).2.2 _ _ hcompiled _ hmem hlibrary⟩

end Npl
