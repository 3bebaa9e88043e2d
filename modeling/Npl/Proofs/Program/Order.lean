import Mathlib.Data.List.Nodup
import Npl.Proofs.Program.Pointing

/-!
# The order of the sources

Units are merged in order, and a name belongs to the declaration that is merged first. So where a
name is declared twice in a package, the order of the sources decides which declaration is told to
be the duplicate. Where no name is, the order decides nothing: what is found at a place is found
there in any order of the sources, and the compiler gives up in all orders or in none. It may be
another chain of calls that it names then, if there are several that never end.

## Main definitions

* `declaredBy` — the packages and names that sources declare.
* `Outcome.SameByPlace` — two outcomes tell the same about each place.

## Main results

* `Scope.kind?_of_perm` — what a name means does not depend on the order.
* `findCircular_eq_none_of_perm` — neither does whether some chain of calls never ends.
* `compile_sameByPlace_of_perm` — compiling the sources in another order tells the same.
-/

namespace Npl

/-! ### Lists in another order -/

section

variable {α β : Type} {l l' : List α} {P : α → Bool}

/-- If at most one member has a property, it is found in any order. -/
theorem find?_of_perm (h : l.Perm l')
    (hone : ∀ a ∈ l, ∀ b ∈ l, P a = true → P b = true → a = b) : l.find? P = l'.find? P := by
  cases hfound : l.find? P with
  | none =>
      rw [List.find?_eq_none] at hfound
      exact (List.find?_eq_none.2 fun a ha => hfound a (h.mem_iff.2 ha)).symm
  | some a =>
      have ha := List.mem_of_find?_eq_some hfound
      cases hfound' : l'.find? P with
      | none =>
          rw [List.find?_eq_none] at hfound'
          exact absurd (List.find?_some hfound) (hfound' a (h.mem_iff.1 ha))
      | some b =>
          have hb := h.mem_iff.2 (List.mem_of_find?_eq_some hfound')
          rw [hone a ha b hb (List.find?_some hfound) (List.find?_some hfound')]

/-- If at most one member has a property, there is nothing else to pick out. -/
theorem filter_eq_find? (hnodup : l.Nodup)
    (hone : ∀ a ∈ l, ∀ b ∈ l, P a = true → P b = true → a = b) :
    l.filter P = (l.find? P).toList := by
  induction l with
  | nil => rfl
  | cons a l ih =>
      rw [List.nodup_cons] at hnodup
      by_cases ha : P a = true
      · have hothers : l.filter P = [] := by
          rw [List.filter_eq_nil_iff]
          intro b hb hPb
          have hab : a = b := hone a List.mem_cons_self b (List.mem_cons_of_mem _ hb) ha hPb
          exact hnodup.1 (hab ▸ hb)
        rw [List.filter_cons_of_pos ha, hothers, List.find?_cons_of_pos ha, Option.toList_some]
      · rw [List.filter_cons_of_neg ha, List.find?_cons_of_neg ha]
        exact ih hnodup.2 fun b hb c hc =>
          hone b (List.mem_cons_of_mem _ hb) c (List.mem_cons_of_mem _ hc)

theorem flatMap_filter (P : α → Bool) (f : α → List β) :
    (l.filter P).flatMap f = l.flatMap fun a => if P a then f a else [] := by
  induction l with
  | nil => rfl
  | cons a l ih =>
      rw [List.flatMap_cons, ← ih]
      by_cases ha : P a = true
      · rw [List.filter_cons_of_pos ha, if_pos ha, List.flatMap_cons]
      · rw [List.filter_cons_of_neg ha, if_neg ha, List.nil_append]

theorem flatMap_sublist_flatMap {f g : α → List β} (h : ∀ a ∈ l, (f a).Sublist (g a)) :
    (l.flatMap f).Sublist (l.flatMap g) := by
  induction l with
  | nil => exact List.Sublist.refl _
  | cons a l ih =>
      rw [List.flatMap_cons, List.flatMap_cons]
      exact (h a List.mem_cons_self).append (ih fun b hb => h b (List.mem_cons_of_mem _ hb))

/-- Lists that are worked out from the members alone, joined. -/
theorem flatten_mapIdx_const (f : α → List β) : (l.mapIdx fun _ a => f a).flatten = l.flatMap f := by
  have hmap : (l.mapIdx fun _ a => f a) = l.map f := List.ext_getElem (by simp) (by simp)
  rw [hmap, List.flatMap_def]

end

/-- The messages that are located at a place, in order. -/
def messagesOf (place : Path) (messages : List Message) : List Message :=
  messages.filter fun m => m.location = place

/-- What is said about sources at a place is what is said about the sources that lie there. -/
theorem messagesOf_flatMap {ss : List Source} {f : Source → List Message}
    (hf : ∀ s, ∀ m ∈ f s, m.location = s.location) (place : Path) :
    messagesOf place (ss.flatMap f) = (ss.filter fun s => s.location = place).flatMap f := by
  unfold messagesOf
  induction ss with
  | nil => rfl
  | cons s ss ih =>
      rw [List.flatMap_cons, List.filter_append, ih]
      by_cases hs : s.location = place
      · rw [List.filter_cons_of_pos (by simpa using hs), List.flatMap_cons,
          List.filter_eq_self.2 fun m hm => by simpa using (hf s m hm).trans hs]
      · rw [List.filter_cons_of_neg (by simpa using hs),
          List.filter_eq_nil_iff.2 fun m hm => by simpa [hf s m hm] using hs, List.nil_append]

/-- If each source has a place of its own, what is said about it there does not depend on the order
of the sources. -/
theorem messagesOf_flatMap_of_perm {ss ss' : List Source} (h : ss.Perm ss')
    (hplaces : (ss.map Source.location).Nodup) {f : Source → List Message}
    (hf : ∀ s, ∀ m ∈ f s, m.location = s.location) (place : Path) :
    messagesOf place (ss.flatMap f) = messagesOf place (ss'.flatMap f) := by
  have hone : ∀ a ∈ ss, ∀ b ∈ ss, decide (a.location = place) = true →
      decide (b.location = place) = true → a = b := by
    intro a ha b hb hat hbt
    exact List.inj_on_of_nodup_map hplaces ha hb
      ((of_decide_eq_true hat).trans (of_decide_eq_true hbt).symm)
  have hone' : ∀ a ∈ ss', ∀ b ∈ ss', decide (a.location = place) = true →
      decide (b.location = place) = true → a = b :=
    fun a ha b hb => hone a (h.mem_iff.2 ha) b (h.mem_iff.2 hb)
  have hnodup : ss.Nodup := List.Nodup.of_map _ hplaces
  rw [messagesOf_flatMap hf, messagesOf_flatMap hf, filter_eq_find? hnodup hone,
    filter_eq_find? (h.nodup_iff.1 hnodup) hone', find?_of_perm h hone]

/-! ### Names -/

/-- The package and the name that an entry belongs to. -/
def Entry.key (e : Entry) : String × String :=
  (e.package, e.name)

/-- What a unit declares, each package and name with what it is. -/
def SourceUnit.kinds (u : SourceUnit) : List ((String × String) × EntryKind) :=
  u.tree.structs.map (fun d => ((u.package, d.name), .struct)) ++
    u.tree.functions.map fun d => ((u.package, d.name), .function)

/-- The packages and names that sources declare, libraries and sources with syntax errors
included. -/
def declaredBy (sources : List Source) : List (String × String) :=
  sources.flatMap fun s => (SourceUnit.read s).1.kinds.map Prod.fst

/-- The packages and names that units declare. -/
def declaredIn (units : List SourceUnit) : List (String × String) :=
  units.flatMap fun u => u.kinds.map Prod.fst

theorem declaredBy_eq (sources : List Source) :
    declaredBy sources = declaredIn ((readAll sources).map Prod.fst) := by
  simp [declaredBy, declaredIn, readAll, List.flatMap_map]

namespace Scope

variable {units units' : List SourceUnit} {s : Scope}

/-- The entries of a scope without the declarations that they come from. -/
def kinds (s : Scope) : List ((String × String) × EntryKind) :=
  s.map fun e => (e.key, e.kind)

theorem kinds_entries (u : SourceUnit) (i : Nat) : kinds (u.entries i) = u.kinds := by
  have hstructs : kinds (u.tree.structs.mapIdx fun j d => ⟨u.package, d.name, .struct, i, j⟩) =
      u.tree.structs.map fun d => ((u.package, d.name), .struct) :=
    List.ext_getElem (by simp [kinds]) (by simp [kinds, Entry.key])
  have hfunctions :
      kinds (u.tree.functions.mapIdx fun j d => ⟨u.package, d.name, .function, i, j⟩) =
        u.tree.functions.map fun d => ((u.package, d.name), .function) :=
    List.ext_getElem (by simp [kinds]) (by simp [kinds, Entry.key])
  rw [SourceUnit.entries, SourceUnit.kinds, ← hstructs, ← hfunctions, kinds, List.map_append]
  rfl

theorem kinds_ofUnits (units : List SourceUnit) :
    (ofUnits units).kinds = units.flatMap SourceUnit.kinds := by
  have hunits : (units.mapIdx fun i u => u.entries i).map kinds =
      units.mapIdx fun _ u => u.kinds :=
    List.ext_getElem (by simp) (by simp [kinds_entries])
  rw [← flatten_mapIdx_const, ← hunits, ofUnits, kinds, List.map_flatten]
  rfl

theorem map_key_ofUnits (units : List SourceUnit) :
    (ofUnits units).map Entry.key = declaredIn units := by
  have hkeys : (ofUnits units).map Entry.key = (ofUnits units).kinds.map Prod.fst := by
    rw [kinds, List.map_map]
    rfl
  rw [hkeys, kinds_ofUnits, List.map_flatMap, declaredIn]

/-- If each name is declared once, each entry is the one that its name belongs to. -/
theorem find?_eq_some (h : (s.map Entry.key).Nodup) {e : Entry} (he : e ∈ s) :
    s.find? e.package e.name = some e := by
  have hsome : (s.find? e.package e.name).isSome = true := by
    rw [find?, List.find?_isSome]
    exact ⟨e, he, by simp⟩
  obtain ⟨found, hfound⟩ := Option.isSome_iff_exists.1 hsome
  have hkey := List.find?_some hfound
  simp only [Bool.and_eq_true, decide_eq_true_eq] at hkey
  have hsame : found.key = e.key := Prod.ext hkey.1 hkey.2
  rw [hfound, List.inj_on_of_nodup_map h (List.mem_of_find?_eq_some hfound) he hsame]

/-- If each name is declared once, what a name is can be told from the entries in any order. -/
theorem kind?_eq_some_iff (h : (s.map Entry.key).Nodup) {package name : String} {k : EntryKind} :
    s.kind? package name = some k ↔ ((package, name), k) ∈ s.kinds := by
  rw [kind?, Option.map_eq_some_iff, kinds, List.mem_map]
  constructor
  · rintro ⟨e, hfind, rfl⟩
    have hkey := List.find?_some hfind
    simp only [Bool.and_eq_true, decide_eq_true_eq] at hkey
    exact ⟨e, List.mem_of_find?_eq_some hfind, by simp [Entry.key, hkey]⟩
  · rintro ⟨e, he, heq⟩
    obtain ⟨hkey, rfl⟩ := Prod.mk.inj heq
    obtain ⟨rfl, rfl⟩ := Prod.mk.inj hkey
    exact ⟨e, find?_eq_some h he, rfl⟩

/-- What a name means does not depend on the order of the units if no name is declared twice. -/
theorem kind?_of_perm (h : units.Perm units') (hdeclared : (declaredIn units).Nodup) :
    (ofUnits units).kind? = (ofUnits units').kind? := by
  have hdeclared' : (declaredIn units').Nodup := (h.flatMap_right _).nodup_iff.1 hdeclared
  rw [← map_key_ofUnits] at hdeclared hdeclared'
  have hkinds : (ofUnits units).kinds.Perm (ofUnits units').kinds := by
    rw [kinds_ofUnits, kinds_ofUnits]
    exact h.flatMap_right _
  funext package name
  refine Option.ext fun k => ?_
  rw [kind?_eq_some_iff hdeclared, kind?_eq_some_iff hdeclared']
  exact hkinds.mem_iff

end Scope

/-! ### Findings about one unit -/

namespace SourceUnit

variable {u : SourceUnit} {s s' : Scope}

/-- The errors of a unit other than duplicate declarations. -/
def ownErrors (u : SourceUnit) (s : Scope) : List Message :=
  u.importErrors s ++ u.typeErrors s ++
    u.tree.functions.flatMap fun d => u.callErrors s d ++ u.returnErrors d

/-- The errors of a unit depend on what names mean, apart from duplicate declarations. -/
theorem ownErrors_congr (h : s.kind? = s'.kind?) : u.ownErrors s = u.ownErrors s' := by
  have hresolve : ∀ c : UseClause, c.resolve? s = c.resolve? s' := fun c => by
    rw [UseClause.resolve?, h, UseClause.resolve?]
  have himports : u.imports s = u.imports s' := by
    funext kind name
    simp only [imports, hresolve]
  have htype : u.knowsType s = u.knowsType s' := by
    funext name
    rw [knowsType, knowsType, h, himports]
  have hfunction : u.knowsFunction s = u.knowsFunction s' := by
    funext name
    rw [knowsFunction, knowsFunction, h, himports]
  simp only [ownErrors, importErrors, unresolvedUses, hresolve, typeErrors, htype, callErrors,
    callable, hfunction]

/-- If no name is declared twice, no unit has duplicate declarations. -/
theorem duplicateErrors_eq_nil (h : (s.map Entry.key).Nodup) {i : Nat} (hu : u.entries i ⊆ s) :
    u.duplicateErrors s i = [] := by
  rw [duplicateErrors, List.filterMap_eq_nil_iff]
  rintro ⟨e, token⟩ hzip
  have he : e ∈ s := hu (List.of_mem_zip hzip).1
  simp [Scope.isDuplicate, Scope.find?_eq_some h he]

theorem errors_eq_ownErrors (h : (s.map Entry.key).Nodup) {i : Nat} (hu : u.entries i ⊆ s) :
    u.errors s i = u.ownErrors s := by
  rw [errors, duplicateErrors_eq_nil h hu, ownErrors, List.nil_append]

end SourceUnit

/-- If no name is declared twice, the check goes through the units in their order. -/
theorem check_eq {units : List SourceUnit} (hdeclared : (declaredIn units).Nodup)
    (skip : List Path) :
    check units skip =
      (units.flatMap fun u => if u.isChecked skip then u.ownErrors (Scope.ofUnits units) else [],
        units.flatMap fun u => if u.isChecked skip then u.warnings else []) := by
  rw [← Scope.map_key_ofUnits] at hdeclared
  have herrors : (units.mapIdx fun i u =>
      if u.isChecked skip then u.errors (Scope.ofUnits units) i else []) =
        units.mapIdx fun _ u =>
          if u.isChecked skip then u.ownErrors (Scope.ofUnits units) else [] := by
    refine List.ext_getElem (by simp) fun i hi _ => ?_
    have hlt : i < units.length := by simpa using hi
    have hentries : units[i].entries i ⊆ Scope.ofUnits units := by
      intro e he
      exact List.mem_flatten.2 ⟨_, List.mem_mapIdx.2 ⟨i, hlt, rfl⟩, he⟩
    simp [SourceUnit.errors_eq_ownErrors hdeclared hentries]
  have hwarnings : (units.filter (·.isChecked skip)).flatMap SourceUnit.warnings =
      units.flatMap fun u => if u.isChecked skip then u.warnings else [] :=
    flatMap_filter _ _
  rw [check, herrors, flatten_mapIdx_const, hwarnings]

/-! ### Undetermined types -/

namespace Untyped

variable {fs fs' : List Untyped}

/-- A unit declares all functions that have no type of their own. -/
theorem map_key_all_sublist (units : List SourceUnit) :
    ((all units).map key).Sublist (declaredIn units) := by
  rw [all, List.map_flatMap, declaredIn]
  refine flatMap_sublist_flatMap fun u _ => ?_
  have hnames : ((u.tree.functions.filter FunctionDecl.isUntyped).map (⟨u, ·⟩)).map key =
      (u.tree.functions.filter FunctionDecl.isUntyped).map fun d => (u.package, d.name) := by
    rw [List.map_map]
    rfl
  have hfunctions : (u.kinds.map Prod.fst) = u.tree.structs.map (fun d => (u.package, d.name)) ++
      u.tree.functions.map fun d => (u.package, d.name) := by
    simp [SourceUnit.kinds, Function.comp_def]
  rw [hnames, hfunctions]
  exact (List.filter_sublist.map _).trans (List.sublist_append_right _ _)

/-- If no name is declared twice, no function is passed over for another one. -/
theorem ofUnits_eq_all {units : List SourceUnit} (h : ((all units).map key).Nodup) :
    ofUnits units = all units :=
  firsts_eq_self h

/-- The edges between functions are the same in any order. -/
theorem edge_graph_of_perm (h : fs.Perm fs') : (graph fs).Edge = (graph fs').Edge := by
  funext a b
  simp only [edge_graph_iff, h.mem_iff]

theorem first?_eq_none_iff : first? fs = none ↔ fs = [] := by
  cases fs <;> simp [first?]

end Untyped

/-- There is no message exactly if the functions make no cycle. -/
theorem findCircular_eq_none_iff {search : Graph.Search (String × String)}
    (hsearch : search.DepthFirst) {units : List SourceUnit} :
    findCircular search units = none ↔
      ∀ key, ¬ Relation.TransGen (Untyped.graph (Untyped.ofUnits units)).Edge key key := by
  constructor
  · intro h
    have hnone := Option.bind_eq_none_iff.1 h
    cases hfound : search (Untyped.graph (Untyped.ofUnits units)) with
    | none => exact hsearch.acyclic _ hfound
    | some es =>
        have hempty := Option.map_eq_none_iff.1 (hnone es hfound)
        exact absurd (Untyped.first?_eq_none_iff.1 hempty)
          (Untyped.members_ne_nil (hsearch.cycle _ es hfound))
  · intro hacyclic
    refine Option.bind_eq_none_iff.2 fun es hes => ?_
    have hcycle := hsearch.cycle _ es hes
    obtain ⟨e, he⟩ := List.exists_mem_of_ne_nil es hcycle.1
    exact absurd (hcycle.transGen he) (hacyclic e.1)

/-- Whether some chain of calls is endless does not depend on the order of the units if no name is
declared twice. -/
theorem findCircular_eq_none_of_perm {search : Graph.Search (String × String)}
    (hsearch : search.DepthFirst) {units units' : List SourceUnit} (h : units.Perm units')
    (hdeclared : (declaredIn units).Nodup) :
    findCircular search units = none ↔ findCircular search units' = none := by
  have hkeys := hdeclared.sublist (Untyped.map_key_all_sublist units)
  have hall : (Untyped.all units).Perm (Untyped.all units') := h.flatMap_right _
  have hkeys' := (hall.map Untyped.key).nodup_iff.1 hkeys
  rw [findCircular_eq_none_iff hsearch, findCircular_eq_none_iff hsearch,
    Untyped.ofUnits_eq_all hkeys, Untyped.ofUnits_eq_all hkeys', Untyped.edge_graph_of_perm hall]

/-! ### Outcomes -/

/-- Two outcomes tell the same about each place: both are faults, wherever these are, or both are
reports with the same errors and the same warnings at each place, in the same order. -/
inductive Outcome.SameByPlace : Outcome → Outcome → Prop
  | fault (message message' : Message) : SameByPlace (.fault message) (.fault message')
  | finished {report report' : Report}
      (errors : ∀ place, messagesOf place report.errors = messagesOf place report'.errors)
      (warnings : ∀ place, messagesOf place report.warnings = messagesOf place report'.warnings) :
      SameByPlace (.finished report) (.finished report')

theorem Report.errors_ofFindings (errors warnings : List Message) :
    (ofFindings errors warnings).errors = errors := by
  unfold ofFindings
  split
  · next hnone => exact (List.isEmpty_iff.1 hnone).symm
  · rfl

theorem Report.warnings_ofFindings (errors warnings : List Message) :
    (ofFindings errors warnings).warnings = warnings := by
  unfold ofFindings
  split <;> rfl

/-! ### Compiling -/

section

variable {sources sources' : List Source}

/-- If no source has syntax errors, none is left out. -/
theorem brokenLocations_eq_nil (h : ∀ s ∈ sources, (SourceUnit.read s).2 = []) :
    brokenLocations (readAll sources) = [] := by
  rw [brokenLocations, List.map_eq_nil_iff, List.filter_eq_nil_iff, readAll, List.forall_mem_map]
  intro s hs
  simp [h s hs]

/-- Compiling succeeds if there are neither syntax errors nor chains of calls that never end, and the
check finds no errors. -/
theorem compile_eq_success_iff {warnings : List Message} :
    compile sources = .finished (.success warnings) ↔
      (∀ s ∈ sources, (SourceUnit.read s).2 = []) ∧
        findCircular Graph.findCycle? ((readAll sources).map Prod.fst) = none ∧
        check ((readAll sources).map Prod.fst) [] = ([], warnings) := by
  have hall : ∀ units : List SourceUnit,
      (units.filter fun u => !([] : List Path).contains u.location) = units := fun units => by simp
  constructor
  · intro h
    have hclean : ∀ s ∈ sources, (SourceUnit.read s).2 = [] := by
      unfold compile at h
      simp only at h
      split at h
      · simp at h
      · have hnone := congrArg Report.errors (Outcome.finished.inj h)
        rw [Report.errors_ofFindings, Report.errors, List.append_eq_nil_iff,
          List.flatMap_eq_nil_iff, readAll, List.forall_mem_map] at hnone
        exact hnone.1
    unfold compile at h
    simp only [brokenLocations_eq_nil hclean, hall] at h
    split at h
    · simp at h
    · next hcircular =>
        have hreport := Outcome.finished.inj h
        have herrors := congrArg Report.errors hreport
        have hwarnings := congrArg Report.warnings hreport
        rw [Report.errors_ofFindings, Report.errors, List.append_eq_nil_iff] at herrors
        rw [Report.warnings_ofFindings, Report.warnings] at hwarnings
        exact ⟨hclean, hcircular, Prod.ext herrors.2 hwarnings⟩
  · rintro ⟨hclean, hcircular, hcheck⟩
    have hnone : (readAll sources).flatMap Prod.snd = [] := by
      rw [List.flatMap_eq_nil_iff, readAll, List.forall_mem_map]
      exact hclean
    unfold compile
    simp only [brokenLocations_eq_nil hclean, hall, hcircular, hcheck, hnone]
    rfl

/-- The errors in the texts of sources lie at their places. -/
theorem location_of_mem_read (s : Source) : ∀ m ∈ (SourceUnit.read s).2, m.location = s.location :=
  fun _ hm => (SourceUnit.about_of_mem_read hm).1

/-- What the check tells about a source lies at its place. -/
theorem location_of_mem_ownErrors {scope : Scope} (s : Source) :
    ∀ m ∈ (SourceUnit.read s).1.ownErrors scope, m.location = s.location := by
  intro m hm
  have herror : m ∈ (SourceUnit.read s).1.errors scope 0 := by
    simp only [SourceUnit.ownErrors, SourceUnit.errors, List.append_assoc] at hm ⊢
    exact List.mem_append_right _ hm
  exact (SourceUnit.about_of_mem_errors (SourceUnit.sound_read s) herror).1

theorem location_of_mem_warnings (s : Source) :
    ∀ m ∈ (SourceUnit.read s).1.warnings, m.location = s.location :=
  fun _ hm => (SourceUnit.about_of_mem_warnings (SourceUnit.sound_read s) hm).1

theorem units_perm (h : sources.Perm sources') :
    ((readAll sources).map Prod.fst).Perm ((readAll sources').map Prod.fst) :=
  (h.map _).map _

/-- Which places have syntax errors does not depend on the order. -/
theorem contains_brokenLocations_of_perm (h : sources.Perm sources') :
    (brokenLocations (readAll sources)).contains = (brokenLocations (readAll sources')).contains := by
  have hbroken : (brokenLocations (readAll sources)).Perm (brokenLocations (readAll sources')) :=
    ((h.map _).filter _).map _
  funext place
  exact Bool.eq_iff_iff.2 (by simp only [List.contains_iff_mem, hbroken.mem_iff])

/-- The units of the sources that have no syntax errors. -/
def wellFormed (sources : List Source) : List SourceUnit :=
  ((readAll sources).map Prod.fst).filter fun u =>
    !(brokenLocations (readAll sources)).contains u.location

theorem wellFormed_perm (h : sources.Perm sources') :
    (wellFormed sources).Perm (wellFormed sources') := by
  rw [wellFormed, wellFormed, contains_brokenLocations_of_perm h]
  exact (units_perm h).filter _

theorem declaredIn_wellFormed_sublist (sources : List Source) :
    (declaredIn (wellFormed sources)).Sublist (declaredBy sources) := by
  rw [declaredBy_eq, declaredIn, wellFormed, flatMap_filter]
  refine flatMap_sublist_flatMap fun u _ => ?_
  split
  · exact List.Sublist.refl _
  · exact List.nil_sublist _

/-- The errors that the check tells about a source. -/
def checkErrors (sources : List Source) (s : Source) : List Message :=
  if (SourceUnit.read s).1.isChecked (brokenLocations (readAll sources)) then
    (SourceUnit.read s).1.ownErrors (Scope.ofUnits ((readAll sources).map Prod.fst))
  else []

/-- The warnings that the check tells about a source. -/
def checkWarnings (sources : List Source) (s : Source) : List Message :=
  if (SourceUnit.read s).1.isChecked (brokenLocations (readAll sources)) then
    (SourceUnit.read s).1.warnings
  else []

/-- If no name is declared twice, a report goes through the sources in their order. -/
theorem compile_eq (hdeclared : (declaredBy sources).Nodup) :
    compile sources = match findCircular Graph.findCycle? (wellFormed sources) with
      | some message => .fault message
      | none => .finished <| .ofFindings
          (sources.flatMap (fun s => (SourceUnit.read s).2) ++ sources.flatMap (checkErrors sources))
          (sources.flatMap (checkWarnings sources)) := by
  have hsyntax : (readAll sources).flatMap Prod.snd =
      sources.flatMap fun s => (SourceUnit.read s).2 := List.flatMap_map ..
  have hunits : ∀ f : SourceUnit → List Message, ((readAll sources).map Prod.fst).flatMap f =
      sources.flatMap fun s => f (SourceUnit.read s).1 := fun f => by
    rw [readAll, List.map_map, List.flatMap_map]
    rfl
  have hcheck := check_eq (declaredBy_eq sources ▸ hdeclared) (brokenLocations (readAll sources))
  rw [hunits, hunits] at hcheck
  simp only [compile, hsyntax, hcheck]
  rfl

/-- What the check tells about a source does not depend on the order of the sources. -/
theorem checkErrors_of_perm (h : sources.Perm sources') (hdeclared : (declaredBy sources).Nodup) :
    checkErrors sources = checkErrors sources' := by
  have hscope := Scope.kind?_of_perm (units_perm h) (declaredBy_eq sources ▸ hdeclared)
  funext s
  rw [checkErrors, checkErrors, SourceUnit.isChecked, SourceUnit.isChecked,
    contains_brokenLocations_of_perm h, SourceUnit.ownErrors_congr hscope]

theorem checkWarnings_of_perm (h : sources.Perm sources') :
    checkWarnings sources = checkWarnings sources' := by
  funext s
  rw [checkWarnings, checkWarnings, SourceUnit.isChecked, SourceUnit.isChecked,
    contains_brokenLocations_of_perm h]

/-- **The order of the sources does not matter** where each source has a place of its own and no
name is declared twice in a package. In any other order the compiler gives up as well or gives a
report as well, and the reports tell the same errors and the same warnings about each place, in the
same order. -/
theorem compile_sameByPlace_of_perm (hperm : sources.Perm sources')
    (hplaces : (sources.map Source.location).Nodup) (hdeclared : (declaredBy sources).Nodup) :
    (compile sources).SameByPlace (compile sources') := by
  have hdeclared' : (declaredBy sources').Nodup := (hperm.flatMap_right _).nodup_iff.1 hdeclared
  have hcircular := findCircular_eq_none_of_perm Graph.depthFirst_findCycle? (wellFormed_perm hperm)
    (hdeclared.sublist (declaredIn_wellFormed_sublist sources))
  have herrors : ∀ s, ∀ m ∈ checkErrors sources s, m.location = s.location := by
    intro s m hm
    unfold checkErrors at hm
    split at hm
    · exact location_of_mem_ownErrors s m hm
    · simp at hm
  have hwarnings : ∀ s, ∀ m ∈ checkWarnings sources s, m.location = s.location := by
    intro s m hm
    unfold checkWarnings at hm
    split at hm
    · exact location_of_mem_warnings s m hm
    · simp at hm
  rw [compile_eq hdeclared, compile_eq hdeclared', ← checkErrors_of_perm hperm hdeclared,
    ← checkWarnings_of_perm hperm]
  cases hfound : findCircular Graph.findCycle? (wellFormed sources) with
  | some message =>
      cases hfound' : findCircular Graph.findCycle? (wellFormed sources') with
      | some message' => exact .fault message message'
      | none => simp [hcircular.2 hfound'] at hfound
  | none =>
      rw [hcircular.1 hfound]
      refine .finished (fun place => ?_) fun place => ?_
      · simp only [Report.errors_ofFindings, messagesOf, List.filter_append]
        exact congrArg₂ _
          (messagesOf_flatMap_of_perm hperm hplaces location_of_mem_read place)
          (messagesOf_flatMap_of_perm hperm hplaces herrors place)
      · simp only [Report.warnings_ofFindings]
        exact messagesOf_flatMap_of_perm hperm hplaces hwarnings place

end

/-- A source that declares a structure, and uses something that is declared nowhere. -/
def supplier : Source :=
  ⟨"file:///b.npl", ⟨.single, ["b.npl"]⟩, "package b\nuse c.C\nstruct B {}", false⟩

/-- A source that uses the structure, and something else of the same package. -/
def consumer : Source :=
  ⟨"file:///a.npl", ⟨.single, ["a.npl"]⟩, "package a\nuse b.B\nuse b.C\nstruct A {}", false⟩

/-- The consumer may come before what it uses. The errors are told in another order then, but not
the errors of one source. -/
theorem compile_sameByPlace_of_perm_swapped :
    [consumer, supplier].Perm [supplier, consumer] ∧
    ([consumer, supplier].map Source.location).Nodup ∧
    (declaredBy [consumer, supplier]).Nodup ∧
    compile [consumer, supplier] ≠ compile [supplier, consumer] ∧
    (compile [consumer, supplier]).SameByPlace (compile [supplier, consumer]) := by
  have hperm : [consumer, supplier].Perm [supplier, consumer] := .swap ..
  have hplaces : ([consumer, supplier].map Source.location).Nodup := by decide
  have hdeclared : (declaredBy [consumer, supplier]).Nodup := by decide +kernel
  have hother : compile [consumer, supplier] ≠ compile [supplier, consumer] := by decide +kernel
  exact ⟨hperm, hplaces, hdeclared, hother, compile_sameByPlace_of_perm hperm hplaces hdeclared⟩

end Npl
