import Npl.Proofs.Program.Order

/-!
# Adding libraries

Libraries are merged after everything else, so all names that sources declare stay theirs, and what
their names mean stays as it was. Library sources are not checked, and syntax errors in them are
reported where they are. So a program that compiles without errors goes on to do so when libraries
are added, whatever these declare and however broken they are, unless the compiler gives up.

## Main definitions

* `Scope.Extends` — a scope that starts with another one.

## Main results

* `SourceUnit.errors_eq_nil_of_extends` — a unit without errors has none in a larger scope.
* `compile_append_libraries` — what compiling gives when libraries are added.
* `compile_conservative` — the warnings stay, and there are no errors but those in the libraries.
-/

namespace Npl

/-! ### Larger scopes -/

namespace Scope

variable {s t : Scope}

/-- The scope starts with another one: what belongs to a declaration of the other one still does. -/
def Extends (t s : Scope) : Prop :=
  s <+: t

/-- A name that belongs to a declaration still belongs to it. -/
theorem Extends.find? (h : t.Extends s) {package name : String} {e : Entry}
    (hfound : s.find? package name = some e) : t.find? package name = some e := by
  obtain ⟨more, rfl⟩ := h
  rw [Scope.find?, List.find?_append]
  rw [Scope.find?] at hfound
  rw [hfound, Option.some_or]

theorem Extends.kind? (h : t.Extends s) {package name : String} {kind : EntryKind}
    (hkind : s.kind? package name = some kind) : t.kind? package name = some kind := by
  obtain ⟨e, hfound, rfl⟩ := Option.map_eq_some_iff.1 hkind
  exact Option.map_eq_some_iff.2 ⟨e, h.find? hfound, rfl⟩

/-- The scope of more units starts with that of the first ones. -/
theorem extends_ofUnits (units more : List SourceUnit) :
    (ofUnits (units ++ more)).Extends (ofUnits units) := by
  refine ⟨(more.mapIdx fun i u => u.entries (i + units.length)).flatten, ?_⟩
  rw [ofUnits, ofUnits, List.mapIdx_append, List.flatten_append]

end Scope

namespace SourceUnit

variable {u : SourceUnit} {s t : Scope} {i : Nat}

/-- A use clause that refers to something goes on to refer to the same. -/
theorem resolve?_of_extends (h : t.Extends s) (huses : u.importErrors s = []) {c : UseClause}
    (hc : c ∈ u.tree.uses) : ∃ kind, c.resolve? s = some kind ∧ c.resolve? t = some kind := by
  rw [importErrors, List.map_eq_nil_iff, unresolvedUses, List.filter_eq_nil_iff] at huses
  have hsome : c.resolve? s ≠ none := by simpa using huses c hc
  obtain ⟨kind, hkind⟩ := Option.ne_none_iff_exists'.1 hsome
  exact ⟨kind, hkind, h.kind? hkind⟩

/-- Where no use clause refers to nothing, the names made known by them stay known. -/
theorem imports_of_extends (h : t.Extends s) (huses : u.importErrors s = []) {kind : EntryKind}
    {name : String} (himports : u.imports s kind name = true) : u.imports t kind name = true := by
  obtain ⟨c, hc, hclause⟩ := List.any_eq_true.1 himports
  obtain ⟨found, hs, ht⟩ := resolve?_of_extends h huses hc
  refine List.any_eq_true.2 ⟨c, hc, ?_⟩
  simpa [hs, ht] using hclause

theorem knowsType_of_extends (h : t.Extends s) (huses : u.importErrors s = []) {name : String}
    (hknown : u.knowsType s name = true) : u.knowsType t name = true := by
  simp only [knowsType, Bool.or_eq_true, decide_eq_true_eq] at hknown ⊢
  exact hknown.imp (Or.imp_right h.kind?) (imports_of_extends h huses)

theorem knowsFunction_of_extends (h : t.Extends s) (huses : u.importErrors s = []) {name : String}
    (hknown : u.knowsFunction s name = true) : u.knowsFunction t name = true := by
  simp only [knowsFunction, Bool.or_eq_true, decide_eq_true_eq] at hknown ⊢
  exact hknown.imp h.kind? (imports_of_extends h huses)

theorem callable_of_extends (h : t.Extends s) (huses : u.importErrors s = []) {d : FunctionDecl}
    {name : String} (hcallable : u.callable s d name = true) : u.callable t d name = true := by
  simp only [callable, Bool.or_eq_true] at hcallable ⊢
  exact hcallable.imp (Or.imp_left (Or.imp_right (knowsFunction_of_extends h huses)))
    (knowsType_of_extends h huses)

/-- What is the first declaration of its name stays the first one. -/
theorem duplicateErrors_eq_nil_of_extends (h : t.Extends s) (hnone : u.duplicateErrors s i = []) :
    u.duplicateErrors t i = [] := by
  rw [duplicateErrors, List.filterMap_eq_nil_iff] at hnone ⊢
  rintro ⟨e, token⟩ hzip
  have hfirst : s.find? e.package e.name = some e := by
    simpa [Scope.isDuplicate] using hnone (e, token) hzip
  simp [Scope.isDuplicate, h.find? hfirst]

/-- A unit without errors has none in a larger scope. -/
theorem errors_eq_nil_of_extends (h : t.Extends s) (hnone : u.errors s i = []) :
    u.errors t i = [] := by
  simp only [errors, List.append_eq_nil_iff, List.flatMap_eq_nil_iff] at hnone ⊢
  obtain ⟨⟨⟨hduplicates, huses⟩, htypes⟩, hfunctions⟩ := hnone
  refine ⟨⟨⟨duplicateErrors_eq_nil_of_extends h hduplicates, ?_⟩, ?_⟩, fun d hd => ⟨?_, ?_⟩⟩
  · rw [importErrors, List.map_eq_nil_iff, unresolvedUses, List.filter_eq_nil_iff]
    intro c hc
    obtain ⟨kind, -, ht⟩ := resolve?_of_extends h huses hc
    simp [ht]
  · rw [typeErrors, List.map_eq_nil_iff, List.filter_eq_nil_iff] at htypes ⊢
    intro r hr
    have hknown : u.knowsType s r.name = true := by simpa using htypes r hr
    simp [knowsType_of_extends h huses hknown]
  · have hcalls := (hfunctions d hd).1
    rw [callErrors, List.map_eq_nil_iff, List.filter_eq_nil_iff] at hcalls ⊢
    intro token htoken
    have hcallable : u.callable s d token.text = true := by simpa using hcalls token htoken
    simp [callable_of_extends h huses hcallable]
  · exact (hfunctions d hd).2

end SourceUnit

/-! ### The check -/

/-- If the check finds no errors, it finds none and the same warnings when units are added that are
not checked, and units that are skipped lie elsewhere. -/
theorem check_append {units more : List SourceUnit} {skip : List Path} {warnings : List Message}
    (hlibraries : ∀ u ∈ more, u.source.library = true)
    (hskip : ∀ u ∈ units, u.location ∉ skip) (h : check units [] = ([], warnings)) :
    check (units ++ more) skip = ([], warnings) := by
  have hchecked : ∀ u ∈ units, u.isChecked skip = u.isChecked [] := by
    intro u hu
    simp [SourceUnit.isChecked, hskip u hu]
  have hlibrary : ∀ u ∈ more, u.isChecked skip = false := by
    intro u hu
    simp [SourceUnit.isChecked, hlibraries u hu]
  obtain ⟨herrors, hwarnings⟩ := Prod.mk.inj h
  rw [List.flatten_eq_nil_iff] at herrors
  refine Prod.ext ?_ ?_
  · simp only [check, List.mapIdx_append, List.flatten_append, List.append_eq_nil_iff,
      List.flatten_eq_nil_iff]
    constructor
    · intro found hfound
      obtain ⟨i, hi, rfl⟩ := List.mem_mapIdx.1 hfound
      have hnone := herrors _ (List.mem_mapIdx.2 ⟨i, hi, rfl⟩)
      rw [hchecked _ (List.getElem_mem hi)]
      split
      · next hyes =>
          rw [if_pos hyes] at hnone
          exact SourceUnit.errors_eq_nil_of_extends (Scope.extends_ofUnits units more) hnone
      · rfl
    · intro found hfound
      obtain ⟨i, hi, rfl⟩ := List.mem_mapIdx.1 hfound
      rw [hlibrary _ (List.getElem_mem hi), if_neg Bool.false_ne_true]
  · have hnone : more.filter (·.isChecked skip) = [] :=
      List.filter_eq_nil_iff.2 fun u hu => by simp [hlibrary u hu]
    simp only [check, List.filter_append, hnone, List.append_nil, List.filter_congr hchecked]
    exact hwarnings

/-! ### Compiling -/

section

variable {sources libraries : List Source} {warnings : List Message}

/-- The places with syntax errors are places of sources. -/
theorem exists_of_mem_brokenLocations {place : Path} (h : place ∈ brokenLocations (readAll sources)) :
    ∃ s ∈ sources, s.location = place := by
  obtain ⟨read, hread, rfl⟩ := List.mem_map.1 h
  obtain ⟨s, hs, rfl⟩ := List.mem_map.1 (List.mem_filter.1 hread).1
  exact ⟨s, hs, rfl⟩

/-- Where only libraries have syntax errors, only places of libraries are skipped. -/
theorem brokenLocations_append (hclean : ∀ s ∈ sources, (SourceUnit.read s).2 = []) :
    brokenLocations (readAll (sources ++ libraries)) = brokenLocations (readAll libraries) := by
  have hnone := brokenLocations_eq_nil hclean
  rw [brokenLocations, List.map_eq_nil_iff] at hnone
  rw [readAll, List.map_append, brokenLocations, List.filter_append, ← readAll, hnone,
    List.nil_append]
  rfl

/-- A program that compiles without errors goes on to do so with libraries added, apart from the
syntax errors in these. Or the compiler gives up. -/
theorem compile_append_libraries (hlibraries : ∀ l ∈ libraries, l.library = true)
    (hplaces : ∀ l ∈ libraries, ∀ s ∈ sources, l.location ≠ s.location)
    (h : compile sources = .finished (.success warnings)) :
    (∃ m, compile (sources ++ libraries) = .fault m) ∨
      compile (sources ++ libraries) =
        .finished (.ofFindings (libraries.flatMap fun l => (SourceUnit.read l).2) warnings) := by
  obtain ⟨hclean, -, hcheck⟩ := compile_eq_success_iff.1 h
  have herrors : (readAll (sources ++ libraries)).flatMap Prod.snd =
      libraries.flatMap fun l => (SourceUnit.read l).2 := by
    rw [readAll, List.flatMap_map, List.flatMap_append, List.flatMap_eq_nil_iff.2 hclean,
      List.nil_append]
  have hskip : ∀ u ∈ (readAll sources).map Prod.fst,
      u.location ∉ brokenLocations (readAll libraries) := by
    rw [readAll, List.map_map, List.forall_mem_map]
    intro s hs hbroken
    obtain ⟨l, hl, hplace⟩ := exists_of_mem_brokenLocations hbroken
    exact hplaces l hl s hs hplace
  have hunchecked : ∀ u ∈ (readAll libraries).map Prod.fst, u.source.library = true := by
    rw [readAll, List.map_map, List.forall_mem_map]
    exact hlibraries
  have hadded : check ((readAll (sources ++ libraries)).map Prod.fst)
      (brokenLocations (readAll (sources ++ libraries))) = ([], warnings) := by
    rw [brokenLocations_append hclean, readAll, List.map_append, List.map_append]
    exact check_append hunchecked hskip hcheck
  simp only [compile, herrors, hadded, List.append_nil]
  split
  · exact .inl ⟨_, rfl⟩
  · exact .inr rfl

/-- **Adding libraries is conservative.** If sources compile without errors, then with libraries that
lie elsewhere the compiler gives up or gives a report with the same warnings. The errors in it are the
syntax errors in the libraries, and none of them lies in one of the sources. -/
theorem compile_conservative (hlibraries : ∀ l ∈ libraries, l.library = true)
    (hplaces : ∀ l ∈ libraries, ∀ s ∈ sources, l.location ≠ s.location)
    (h : compile sources = .finished (.success warnings)) :
    (∃ m, compile (sources ++ libraries) = .fault m) ∨
      ∃ report, compile (sources ++ libraries) = .finished report ∧ report.warnings = warnings ∧
        report.errors = libraries.flatMap (fun l => (SourceUnit.read l).2) ∧
        ∀ m ∈ report.errors, ∀ s ∈ sources, m.location ≠ s.location := by
  rcases compile_append_libraries hlibraries hplaces h with hfault | hreport
  · exact .inl hfault
  · refine .inr ⟨_, hreport, Report.warnings_ofFindings _ _, Report.errors_ofFindings _ _, ?_⟩
    rw [Report.errors_ofFindings]
    intro m hm s hs
    obtain ⟨l, hl, hm⟩ := List.mem_flatMap.1 hm
    rw [location_of_mem_read l m hm]
    exact hplaces l hl s hs

end

/-- A source with a structure, and a variable that is not used. -/
def workshop : Source :=
  ⟨"file:///a.npl", ⟨.single, ["a.npl"]⟩,
    "package a struct A \x7b\x7d function f() -> \x7b var x = A(); \x7d", false⟩

/-- A library with a function of the name of that structure, and a stray character. -/
def clutter : Source :=
  ⟨"file:///l.npl", ⟨.single, ["l.npl"]⟩, "package a function A() -> 1; ?", true⟩

/-- What the warning about the workshop says. -/
def unusedX : Message :=
  ⟨.unusedVariable, .warning, Finding.text (.unused "x"), workshop.location, 1, 41, "var x = A();"⟩

/-- The clutter changes nothing about the workshop. -/
theorem compile_conservative_clutter :
    (∀ l ∈ [clutter], l.library = true) ∧
    (∀ l ∈ [clutter], ∀ s ∈ [workshop], l.location ≠ s.location) ∧
    compile [workshop] = .finished (.success [unusedX]) ∧
    ((∃ m, compile ([workshop] ++ [clutter]) = .fault m) ∨
      ∃ report, compile ([workshop] ++ [clutter]) = .finished report ∧
        report.warnings = [unusedX] ∧
        report.errors = [clutter].flatMap (fun l => (SourceUnit.read l).2) ∧
        ∀ m ∈ report.errors, ∀ s ∈ [workshop], m.location ≠ s.location) := by
  have hlibraries : ∀ l ∈ [clutter], l.library = true := by decide
  have hplaces : ∀ l ∈ [clutter], ∀ s ∈ [workshop], l.location ≠ s.location := by decide
  have hcompiled : compile [workshop] = .finished (.success [unusedX]) := by decide +kernel
  exact ⟨hlibraries, hplaces, hcompiled, compile_conservative hlibraries hplaces hcompiled⟩

end Npl
