import Npl.Proofs.Program.Pointing
import Npl.Proofs.Program.Relocation
import Npl.Proofs.Syntax.LineEnds

/-!
# Programs with unified line ends

The editor sends texts as they are, and a file that is read from the disk comes with unified line
ends. So the same program can come to the compiler with carriage returns and without. That makes no
difference to what is shown: all findings are the same, at the same lines and columns, although the
snippets that they are about differ, and so do all offsets.

The texts must not have a carriage return elsewhere than before a line feed, and none behind a
backslash, where it would be a character of a string.

## Main definitions

* `Message.shown` — what the editor shows for a message, and where.
* `SourceUnit.bare` — a unit without its carriage returns.
* `Outcome.LooksLike` — two outcomes are of the same kind and show the same.

## Main results

* `SourceUnit.shown_report_bare` — a finding about a unit is shown the same way.
* `shown_check_bare`, `shown_findCircular_bare` — the findings about all units, and the fault.
* `looksLike_compile_unified` — compiling with unified line ends looks the same.
-/

namespace Npl

open Text (Position Tame bare bareOffset barePlace)

/-! ### Ranges -/

/-- Two messages have the same range if they start at places with the same line and column, and so
do the places where their snippets end. -/
theorem Message.range_eq_of_aligned {m n : Message} {p q : Position} (hpLine : m.line = p.line)
    (hpColumn : m.column = p.column) (hqLine : n.line = q.line) (hqColumn : n.column = q.column)
    (hstart : p.Aligned q)
    (hstop : (p.advance m.snippet.toList).Aligned (q.advance n.snippet.toList)) :
    m.range = n.range := by
  have hline : m.line = n.line := by rw [hpLine, hqLine, hstart.line]
  have hcolumn : m.column = n.column := by rw [hpColumn, hqColumn, hstart.column]
  obtain ⟨hmLine, hmColumn⟩ := advance_eq_of_lineLengths p m.snippet.toList
  obtain ⟨hnLine, hnColumn⟩ := advance_eq_of_lineLengths q n.snippet.toList
  have hlines := hstop.line
  have hcolumns := hstop.column
  rw [hmLine, hnLine, hstart.line, Nat.add_left_cancel_iff] at hlines
  rw [hmColumn, hnColumn, hstart.column] at hcolumns
  unfold range
  rw [hline, hcolumn]
  generalize lineLengths m.snippet.toList = lengths at hlines hcolumns ⊢
  generalize lineLengths n.snippet.toList = lengths' at hlines hcolumns ⊢
  obtain ⟨first, others⟩ := lengths
  obtain ⟨first', others'⟩ := lengths'
  simp only at hlines hcolumns ⊢
  cases hlast : others.getLast? with
  | none =>
      obtain rfl := List.getLast?_eq_none_iff.1 hlast
      obtain rfl := List.length_eq_zero_iff.1 hlines.symm
      obtain rfl : first = first' := by simpa using hcolumns
      rfl
  | some last =>
      cases hlast' : others'.getLast? with
      | none =>
          obtain rfl := List.getLast?_eq_none_iff.1 hlast'
          obtain rfl := List.length_eq_zero_iff.1 hlines
          simp at hlast
      | some last' =>
          obtain rfl : last = last' := by simpa [hlast, hlast'] using hcolumns
          rw [hlines]

/-- What the editor shows for a message, and where. -/
def Message.shown (m : Message) : Path × Except PlaceError Diagnostic :=
  (m.location, m.toDiagnostic)

/-! ### Units -/

/-- The source without its carriage returns. -/
def Source.bare (s : Source) : Source :=
  { s with content := bareText s.content }

namespace SourceUnit

/-- Where a place of the unit is without the carriage returns. -/
def place (u : SourceUnit) (p : Position) : Position :=
  barePlace u.source.content.toList p

/-- The unit without its carriage returns. -/
def bare (u : SourceUnit) : SourceUnit :=
  ⟨u.source.bare, u.tree.relocate u.place⟩

/-- The text of the unit is tame, and its tokens are settled in it. -/
structure Settled (u : SourceUnit) : Prop where
  tame : Tame u.source.content.toList
  within : u.tree.Within (Token.Settled u.source.content)

variable {u : SourceUnit}

theorem settled_read {s : Source} (h : Tame s.content.toList) : (read s).1.Settled :=
  ⟨h, (Reader.keeps_tree _ fun _ => Token.settled_of_mem_ofText h).value⟩

/-- Without its carriage returns a source is read as the same unit, and with the same errors. -/
theorem read_bare {s : Source} (h : Tame s.content.toList) :
    read s.bare = ((read s).1.bare, (read s).2) := by
  have hparse := parse_bareText h
  have hbare : s.bare.content = bareText s.content := rfl
  simp only [read, hbare, hparse, List.map_map]
  refine Prod.ext rfl (List.map_congr_left fun e he => ?_)
  obtain ⟨hline, hcolumn⟩ := SyntaxError.aligned_of_mem_parse h he
  simp only [Function.comp, SyntaxError.report, hline, hcolumn]
  rfl

/-- The stretch from one token to another, without its carriage returns. -/
theorem slice_bare (start : Token) {stop : Token} (hstop : stop.Settled u.source.content) :
    u.bare.slice (start.relocate u.place) (stop.relocate u.place) =
      bareText (u.slice start stop) := by
  have hcontent : u.bare.source.content.toList = Text.bare u.source.content.toList :=
    String.toList_ofList
  have hstart : (start.relocate u.place).pos.offset =
      bareOffset u.source.content.toList start.pos.offset := Text.offset_barePlace _ _
  have hend : (stop.relocate u.place).stopOffset =
      bareOffset u.source.content.toList stop.stopOffset := hstop.stopOffset_relocate
  rw [slice, hcontent, hstart, hend, Text.take_drop_bare, bareText, slice, String.toList_ofList]

/-- A finding is shown the same way without the carriage returns. -/
theorem shown_report_bare {start stop : Token} (hstart : start.Settled u.source.content)
    (hstop : stop.Settled u.source.content) (finding : Finding) :
    (u.bare.report finding (start.relocate u.place) (stop.relocate u.place)).shown =
      (u.report finding start stop).shown := by
  have haligned : start.pos.Aligned (u.place start.pos) :=
    Text.aligned_barePlace hstart.stands.place hstart.start
  have htame : Tame (u.slice start stop).toList := by
    rw [slice, String.toList_ofList, ← List.drop_take]
    exact hstop.stop.drop _
  have hends : (start.pos.advance (u.slice start stop).toList).Aligned
      ((u.place start.pos).advance (bareText (u.slice start stop)).toList) := by
    rw [bareText, String.toList_ofList]
    exact haligned.advance htame
  have hrange : (u.report finding start stop).range =
      (u.bare.report finding (start.relocate u.place) (stop.relocate u.place)).range := by
    refine Message.range_eq_of_aligned rfl rfl rfl rfl haligned ?_
    simp only [report, slice_bare start hstop]
    exact hends
  simp only [Message.shown, Message.toDiagnostic, hrange]
  rfl

/-! ### Scopes -/

theorem mapIdx_map {α β γ : Type} (f : Nat → β → γ) (h : α → β) (l : List α) :
    (l.map h).mapIdx f = l.mapIdx fun i a => f i (h a) :=
  List.ext_getElem (by simp) (by simp)

theorem package_bare (u : SourceUnit) : u.bare.package = u.package :=
  u.tree.packageName_relocate u.place

theorem structs_bare (u : SourceUnit) :
    u.bare.tree.structs = u.tree.structs.map (StructDecl.relocate u.place) :=
  u.tree.structs_relocate u.place

theorem functions_bare (u : SourceUnit) :
    u.bare.tree.functions = u.tree.functions.map (FunctionDecl.relocate u.place) :=
  u.tree.functions_relocate u.place

theorem entries_bare (u : SourceUnit) (i : Nat) : u.bare.entries i = u.entries i := by
  rw [entries, structs_bare, functions_bare, package_bare, mapIdx_map, mapIdx_map]
  rfl

/-- The units without their carriage returns declare the same. -/
theorem scope_bare (units : List SourceUnit) :
    Scope.ofUnits (units.map bare) = Scope.ofUnits units := by
  rw [Scope.ofUnits, mapIdx_map]
  simp only [entries_bare]
  rfl

theorem imports_bare (u : SourceUnit) (s : Scope) (kind : EntryKind) (name : String) :
    u.bare.imports s kind name = u.imports s kind name := by
  have huses : u.bare.tree.uses = u.tree.uses.map (UseClause.relocate u.place) := rfl
  rw [imports, huses, List.any_map]
  simp only [Function.comp_def, UseClause.resolve?_relocate]
  simp only [UseClause.relocate, QualifiedName.simpleName_relocate]
  rfl

theorem knowsType_bare (u : SourceUnit) (s : Scope) (name : String) :
    u.bare.knowsType s name = u.knowsType s name := by
  simp only [knowsType, package_bare, imports_bare]

theorem knowsFunction_bare (u : SourceUnit) (s : Scope) (name : String) :
    u.bare.knowsFunction s name = u.knowsFunction s name := by
  simp only [knowsFunction, package_bare, imports_bare]

/-! ### Findings about a unit -/

section

variable (h : u.Settled) (s : Scope)
include h

theorem shown_duplicateErrors_bare (i : Nat) :
    (u.bare.duplicateErrors s i).map Message.shown = (u.duplicateErrors s i).map Message.shown := by
  have hnames : u.bare.tree.structs.map StructDecl.nameToken ++
      u.bare.tree.functions.map FunctionDecl.nameToken =
      (u.tree.structs.map StructDecl.nameToken ++
        u.tree.functions.map FunctionDecl.nameToken).map (Token.relocate u.place) := by
    rw [structs_bare, functions_bare, List.map_append, List.map_map, List.map_map, List.map_map,
      List.map_map]
    rfl
  simp only [duplicateErrors, hnames, entries_bare, List.zip_map_right, List.filterMap_map,
    List.map_filterMap]
  refine List.filterMap_congr fun named hnamed => ?_
  have hsettled : named.2.Settled u.source.content := by
    rcases List.mem_append.1 (List.of_mem_zip hnamed).2 with hstruct | hfunction
    · obtain ⟨d, hd, heq⟩ := List.mem_map.1 hstruct
      exact heq ▸ (within_of_mem_structs h.within hd).name
    · obtain ⟨d, hd, heq⟩ := List.mem_map.1 hfunction
      exact heq ▸ (within_of_mem_functions h.within hd).name
  have hshown := shown_report_bare hsettled hsettled (.duplicate named.1.name named.1.package)
  simp only [Function.comp_def, Prod.map, id]
  split
  · exact congrArg some hshown
  · rfl

theorem shown_importErrors_bare :
    (u.bare.importErrors s).map Message.shown = (u.importErrors s).map Message.shown := by
  have huses : u.bare.unresolvedUses s = (u.unresolvedUses s).map (UseClause.relocate u.place) := by
    have huses : u.bare.tree.uses = u.tree.uses.map (UseClause.relocate u.place) := rfl
    rw [unresolvedUses, huses, List.filter_map]
    simp only [Function.comp_def, UseClause.resolve?_relocate]
    rfl
  simp only [importErrors, huses, List.map_map]
  refine List.map_congr_left fun c hc => ?_
  obtain ⟨hkeyword, hname⟩ := h.within.uses c (List.mem_filter.1 hc).1
  have hshown := shown_report_bare hkeyword hname.stop (.unresolved c.name.text)
  simp only [Function.comp, UseClause.relocate, QualifiedName.text_relocate]
  exact hshown

theorem shown_typeErrors_bare :
    (u.bare.typeErrors s).map Message.shown = (u.typeErrors s).map Message.shown := by
  have hbindings : ∀ bs : List Binding,
      (bs.map (Binding.relocate u.place)).filterMap Binding.type? =
        (bs.filterMap Binding.type?).map (TypeRef.relocate u.place) := by
    intro bs
    rw [List.filterMap_map, List.map_filterMap]
    rfl
  have hrefs : u.bare.typeRefs = u.typeRefs.map (TypeRef.relocate u.place) := by
    simp only [typeRefs, structs_bare, functions_bare, List.flatMap_map, List.map_append,
      List.map_flatMap, StructDecl.relocate, FunctionDecl.relocate, hbindings, Option.toList_map]
  simp only [typeErrors, hrefs, TypeRef.levels_relocate, List.filter_map, List.map_map]
  simp only [Function.comp_def, knowsType_bare, TypeRef.name_relocate]
  refine List.map_congr_left fun r hr => ?_
  cases within_of_mem_levels (within_of_mem_typeRefs h.within) r (List.mem_filter.1 hr).1 with
  | mk htoken _ hstop =>
      have hshown := shown_report_bare htoken hstop
      simp only [TypeRef.token_relocate, TypeRef.stop_relocate]
      exact hshown _

theorem shown_callErrors_bare {d : FunctionDecl} (hd : d ∈ u.tree.functions) :
    (u.bare.callErrors s (d.relocate u.place)).map Message.shown =
      (u.callErrors s d).map Message.shown := by
  have hcallable : ∀ name, u.bare.callable s (d.relocate u.place) name = u.callable s d name := by
    intro name
    have hparams : (d.relocate u.place).params.map Binding.name = d.params.map Binding.name := by
      simp only [FunctionDecl.relocate, List.map_map]
      rfl
    have hdeclared : Body.declaredNames (d.relocate u.place).body = Body.declaredNames d.body :=
      Body.declaredNames_relocate u.place d.body
    simp only [callable, hparams, hdeclared, knowsFunction_bare, knowsType_bare]
  have hcalls : Body.freeCalls (d.relocate u.place).body =
      (Body.freeCalls d.body).map (Token.relocate u.place) := Body.freeCalls_relocate u.place d.body
  simp only [callErrors, hcalls, List.filter_map, List.map_map]
  simp only [Function.comp_def, hcallable]
  refine List.map_congr_left fun t ht => ?_
  have hsettled := (within_of_mem_functions h.within hd).body t
    (Body.freeCallsFrom_subset _ _ (List.mem_filter.1 ht).1)
  exact shown_report_bare hsettled hsettled (.unknown t.text)

omit s in
theorem shown_returnErrors_bare {d : FunctionDecl} (hd : d ∈ u.tree.functions) :
    (u.bare.returnErrors (d.relocate u.place)).map Message.shown =
      (u.returnErrors d).map Message.shown := by
  have hwithin := within_of_mem_functions h.within hd
  have hreturns : Body.returns (d.relocate u.place).body = Body.returns d.body :=
    Body.returns_relocate u.place d.body
  have hshown := shown_report_bare hwithin.keyword hwithin.stop .missingReturn
  have hresult : (d.relocate u.place).returns? = d.returns?.map (TypeRef.relocate u.place) := rfl
  have hblock : (d.relocate u.place).block = d.block := rfl
  unfold returnErrors
  rw [hreturns, hresult, hblock]
  cases d.returns? with
  | none => rfl
  | some type =>
      simp only [Option.map_some, TypeRef.name_relocate]
      split
      · exact congrArg (fun shown => [shown]) hshown
      · rfl

/-- The errors of a unit are shown the same way without the carriage returns. -/
theorem shown_errors_bare (i : Nat) :
    (u.bare.errors s i).map Message.shown = (u.errors s i).map Message.shown := by
  simp only [errors, List.map_append, shown_duplicateErrors_bare h, shown_importErrors_bare h,
    shown_typeErrors_bare h, functions_bare, List.flatMap_map, List.map_flatMap]
  refine congrArg _ (List.flatMap_congr fun d hd => ?_)
  rw [shown_callErrors_bare h s hd, shown_returnErrors_bare h hd]

omit s in
/-- The warnings of a unit are shown the same way without the carriage returns. -/
theorem shown_warnings_bare :
    u.bare.warnings.map Message.shown = u.warnings.map Message.shown := by
  simp only [warnings, functions_bare, List.flatMap_map, List.map_flatMap]
  refine List.flatMap_congr fun d hd => ?_
  have hunused : Body.unusedVariables (d.relocate u.place).body =
      (Body.unusedVariables d.body).map (Body.Variable.relocate u.place) :=
    Body.unusedVariables_relocate u.place d.body
  rw [hunused, List.map_map, List.map_map, List.map_map]
  refine List.map_congr_left fun v hv => ?_
  have hdeclared := (List.mem_filter.1 hv).1
  have hbody := (within_of_mem_functions h.within hd).body
  exact shown_report_bare (hbody _ (Body.keyword_mem_of_mem_declared hdeclared))
    (hbody _ (Body.stop_mem_of_mem_declared hdeclared)) (.unused v.name.text)

end

end SourceUnit

/-- The findings about units are shown the same way without the carriage returns. -/
theorem shown_check_bare {units : List SourceUnit} (h : ∀ u ∈ units, u.Settled) (skip : List Path) :
    (check (units.map SourceUnit.bare) skip).1.map Message.shown =
        (check units skip).1.map Message.shown ∧
      (check (units.map SourceUnit.bare) skip).2.map Message.shown =
        (check units skip).2.map Message.shown := by
  have hchecked : ∀ u : SourceUnit, u.bare.isChecked skip = u.isChecked skip := fun _ => rfl
  constructor
  · have hfound : ((units.map SourceUnit.bare).mapIdx fun i u =>
        if u.isChecked skip then u.errors (Scope.ofUnits units) i else []).map
          (List.map Message.shown) =
        (units.mapIdx fun i u =>
          if u.isChecked skip then u.errors (Scope.ofUnits units) i else []).map
            (List.map Message.shown) := by
      refine List.ext_getElem (by simp) fun i hi hi' => ?_
      simp only [List.getElem_map, List.getElem_mapIdx, hchecked]
      split
      · exact SourceUnit.shown_errors_bare (h _ (List.getElem_mem _)) _ i
      · rfl
    simp only [check, SourceUnit.scope_bare, List.map_flatten, hfound]
  · simp only [check, List.filter_map, Function.comp_def, hchecked, List.flatMap_map,
      List.map_flatMap]
    exact List.flatMap_congr fun u hu =>
      SourceUnit.shown_warnings_bare (h u (List.mem_filter.1 hu).1)

/-! ### Undetermined types -/

namespace Untyped

/-- The function, in its unit without the carriage returns. -/
def bare (f : Untyped) : Untyped :=
  ⟨f.unit.bare, f.decl.relocate f.unit.place⟩

theorem package_bare (f : Untyped) : f.bare.package = f.package :=
  SourceUnit.package_bare f.unit

theorem same_bare (f g : Untyped) : f.bare.same g.bare = f.same g := by
  rw [same, package_bare, package_bare]
  rfl

theorem all_bare (units : List SourceUnit) :
    all (units.map SourceUnit.bare) = (all units).map bare := by
  simp only [all, List.flatMap_map, List.map_flatMap, SourceUnit.functions_bare, List.filter_map,
    List.map_map]
  refine List.flatMap_congr fun u _ => ?_
  have huntyped : ∀ d : FunctionDecl, (d.relocate u.place).isUntyped = d.isUntyped := fun d => by
    rw [FunctionDecl.isUntyped, FunctionDecl.relocate, Option.isNone_map, FunctionDecl.isUntyped]
  simp only [Function.comp_def, huntyped]
  rfl

/-- The functions without a type of their own, without the carriage returns. -/
theorem ofUnits_bare (units : List SourceUnit) :
    ofUnits (units.map SourceUnit.bare) = (ofUnits units).map bare := by
  rw [ofUnits, all_bare, List.foldl_map]
  change List.foldl _ ([].map bare) _ = _
  refine List.foldl_hom (List.map bare) fun kept f => ?_
  have hkept : (kept.map bare).any f.bare.same = kept.any f.same := by
    rw [List.any_map]
    simp only [Function.comp_def, same_bare]
  rw [hkept]
  split
  · rfl
  · rw [List.map_append, List.map_singleton]

theorem key_bare (f : Untyped) : f.bare.key = f.key :=
  Prod.ext (package_bare f) rfl

/-- The functions are connected in the same way without the carriage returns. -/
theorem graph_bare (fs : List Untyped) : graph (fs.map bare) = graph fs := by
  have hkeys : (fs.map bare).map key = fs.map key := by
    rw [List.map_map]
    exact List.map_congr_left fun f _ => key_bare f
  have hedge : ∀ f : Untyped, edge? (fs.map bare) f.bare = edge? fs f := by
    intro f
    have hcallee : Body.callee? f.bare.decl.body = Body.callee? f.decl.body :=
      Body.callee?_relocate f.unit.place f.decl.body
    simp only [edge?, hcallee, hkeys, key_bare, package_bare]
  refine Graph.ext hkeys ?_
  change (fs.map bare).filterMap (edge? (fs.map bare)) = fs.filterMap (edge? fs)
  rw [List.filterMap_map]
  exact List.filterMap_congr fun f _ => hedge f

/-- The members of a cycle, without the carriage returns. -/
theorem members_bare (fs : List Untyped) (es : List ((String × String) × (String × String))) :
    members (fs.map bare) es = (members fs es).map bare := by
  have hfind : ∀ e : (String × String) × (String × String),
      (fs.map bare).find? (·.key = e.1) = (fs.find? (·.key = e.1)).map bare := by
    intro e
    simp only [List.find?_map, Function.comp_def, key_bare]
  simp only [members, hfind, List.map_filterMap]

/-- The function is one of its unit, and the unit is settled. -/
structure Settled (f : Untyped) : Prop where
  unit : f.unit.Settled
  decl : f.decl ∈ f.unit.tree.functions

theorem Settled.within {f : Untyped} (h : f.Settled) :
    f.decl.Within (Token.Settled f.unit.source.content) :=
  SourceUnit.within_of_mem_functions h.unit.within h.decl

/-- The keyword of a function keeps its line and its column. -/
theorem Settled.aligned {f : Untyped} (h : f.Settled) :
    f.decl.keyword.pos.Aligned f.bare.decl.keyword.pos :=
  Text.aligned_barePlace h.within.keyword.stands.place h.within.keyword.start

theorem before_bare {f g : Untyped} (hf : f.Settled) (hg : g.Settled) :
    f.bare.before g.bare = f.before g := by
  unfold before
  simp only [← hf.aligned.line, ← hf.aligned.column, ← hg.aligned.line, ← hg.aligned.column]
  rfl

/-- The first of several functions stays the first one without the carriage returns. -/
theorem first?_bare {fs : List Untyped} (h : ∀ f ∈ fs, f.Settled) :
    first? (fs.map bare) = (first? fs).map bare := by
  cases fs with
  | nil => rfl
  | cons f fs =>
      obtain ⟨hf, hfs⟩ := List.forall_mem_cons.1 h
      have hfold : ∀ least : Untyped, least.Settled →
          (fs.map bare).foldl (fun least g => if g.before least then g else least) least.bare =
            (fs.foldl (fun least g => if g.before least then g else least) least).bare := by
        clear h hf
        induction fs with
        | nil => exact fun _ _ => rfl
        | cons g fs ih =>
            intro least hleast
            obtain ⟨hg, hfs⟩ := List.forall_mem_cons.1 hfs
            rw [List.map_cons, List.foldl_cons, List.foldl_cons, before_bare hg hleast]
            split
            · exact ih hfs g hg
            · exact ih hfs least hleast
      exact congrArg some (hfold f hf)

theorem shown_report_bare {f : Untyped} (h : f.Settled) : f.bare.report.shown = f.report.shown := by
  have hpath : f.bare.path = f.path := by
    have hparts : f.bare.unit.tree.packageParts = f.unit.tree.packageParts :=
      f.unit.tree.packageParts_relocate f.unit.place
    rw [path, hparts]
    rfl
  rw [report, hpath]
  exact SourceUnit.shown_report_bare h.within.keyword h.within.stop _

end Untyped

/-- The fault is shown the same way without the carriage returns. -/
theorem shown_findCircular_bare {search : Graph.Search (String × String)} {units : List SourceUnit}
    (h : ∀ u ∈ units, u.Settled) :
    (findCircular search (units.map SourceUnit.bare)).map Message.shown =
      (findCircular search units).map Message.shown := by
  have hsettled : ∀ f ∈ Untyped.ofUnits units, f.Settled := by
    intro f hf
    obtain ⟨hunit, hdecl⟩ := Untyped.from_of_mem_ofUnits hf
    exact ⟨h _ hunit, hdecl⟩
  rw [findCircular, Untyped.ofUnits_bare, findCircular, Untyped.graph_bare]
  generalize Untyped.ofUnits units = fs at hsettled ⊢
  cases search (Untyped.graph fs) with
  | none => rfl
  | some es =>
      have hmembers : ∀ f ∈ Untyped.members fs es, f.Settled :=
        fun f hf => hsettled f (Untyped.mem_of_mem_members hf).1
      simp only [Option.bind_some, Untyped.members_bare, Untyped.first?_bare hmembers]
      cases hfirst : Untyped.first? (Untyped.members fs es) with
      | none => rfl
      | some f =>
          have hshown := Untyped.shown_report_bare (hmembers f (Untyped.mem_of_first? hfirst))
          simp only [Option.map_some, hshown]

/-! ### Outcomes -/

/-- The two outcomes are of the same kind, and the editor shows the same for them: the same
diagnostics at the same locations, in the same order. -/
inductive Outcome.LooksLike : Outcome → Outcome → Prop
  | success {warnings warnings' : List Message}
    (h : warnings.map Message.shown = warnings'.map Message.shown) :
    LooksLike (.finished (.success warnings)) (.finished (.success warnings'))
  | failure {errors errors' warnings warnings' : List Message}
    (herrors : errors.map Message.shown = errors'.map Message.shown)
    (hwarnings : warnings.map Message.shown = warnings'.map Message.shown) :
    LooksLike (.finished (.failure errors warnings)) (.finished (.failure errors' warnings'))
  | fault {message message' : Message} (h : message.shown = message'.shown) :
    LooksLike (.fault message) (.fault message')

theorem looksLike_ofFindings {errors errors' warnings warnings' : List Message}
    (herrors : errors.map Message.shown = errors'.map Message.shown)
    (hwarnings : warnings.map Message.shown = warnings'.map Message.shown) :
    Outcome.LooksLike (.finished (.ofFindings errors warnings))
      (.finished (.ofFindings errors' warnings')) := by
  have hempty : errors.isEmpty = errors'.isEmpty := by
    rw [← List.isEmpty_map (f := Message.shown), herrors, List.isEmpty_map]
  unfold Report.ofFindings
  rw [hempty]
  split
  · exact .success hwarnings
  · exact .failure herrors hwarnings

/-- The source with unified line ends, as it is read from the disk. -/
def Source.unified (s : Source) : Source :=
  { s with content := String.ofList (Text.unifyNewlines s.content.toList) }

theorem Source.unified_eq_bare {s : Source} (h : Tame s.content.toList) : s.unified = s.bare := by
  rw [unified, Text.unifyNewlines_eq_bare h]
  rfl

/-- Sources with unified line ends are read as the same units without the carriage returns, and with
the same errors. -/
theorem readAll_unified {sources : List Source} (h : ∀ s ∈ sources, Tame s.content.toList) :
    readAll (sources.map Source.unified) =
      (readAll sources).map fun unit => (unit.1.bare, unit.2) := by
  rw [readAll, readAll, List.map_map, List.map_map]
  refine List.map_congr_left fun s hs => ?_
  rw [Function.comp, Source.unified_eq_bare (h s hs), SourceUnit.read_bare (h s hs)]
  rfl

/-- **Line ends make no difference.** If in all sources carriage returns stand directly before line
feeds only, and none directly behind a backslash, then compiling them with unified line ends looks
the same: the outcomes are of the same kind, and the editor shows the same diagnostics at the same
locations. -/
theorem looksLike_compile_unified {sources : List Source}
    (h : ∀ s ∈ sources, Tame s.content.toList) :
    (compile (sources.map Source.unified)).LooksLike (compile sources) := by
  have hsettled : ∀ u ∈ (readAll sources).map Prod.fst, u.Settled := by
    intro u hu
    obtain ⟨unit, hunit, rfl⟩ := List.mem_map.1 hu
    obtain ⟨s, hs, rfl⟩ := List.mem_map.1 hunit
    exact SourceUnit.settled_read (h s hs)
  have hunits : ((readAll sources).map fun unit => (unit.1.bare, unit.2)).map Prod.fst =
      ((readAll sources).map Prod.fst).map SourceUnit.bare := by
    rw [List.map_map, List.map_map]
    rfl
  have hbroken : brokenLocations ((readAll sources).map fun unit => (unit.1.bare, unit.2)) =
      brokenLocations (readAll sources) := by
    rw [brokenLocations, List.filter_map, List.map_map]
    rfl
  have herrors : ((readAll sources).map fun unit => (unit.1.bare, unit.2)).flatMap Prod.snd =
      (readAll sources).flatMap Prod.snd := List.flatMap_map _ _ _
  have hintact : (((readAll sources).map Prod.fst).map SourceUnit.bare).filter
      (fun u => !(brokenLocations (readAll sources)).contains u.location) =
      (((readAll sources).map Prod.fst).filter
        fun u => !(brokenLocations (readAll sources)).contains u.location).map SourceUnit.bare :=
    List.filter_map
  have hintactSettled : ∀ u ∈ ((readAll sources).map Prod.fst).filter
      fun u => !(brokenLocations (readAll sources)).contains u.location, u.Settled :=
    fun u hu => hsettled u (List.mem_filter.1 hu).1
  have hfault := @shown_findCircular_bare Graph.findCycle? _ hintactSettled
  obtain ⟨hchecked, hwarnings⟩ := shown_check_bare hsettled (brokenLocations (readAll sources))
  simp only [compile, readAll_unified h, hunits, hbroken, herrors, hintact]
  cases hfound : findCircular Graph.findCycle? (((readAll sources).map Prod.fst).filter
      fun u => !(brokenLocations (readAll sources)).contains u.location) with
  | none =>
      rw [hfound, Option.map_none, Option.map_eq_none_iff] at hfault
      rw [hfault]
      refine looksLike_ofFindings ?_ hwarnings
      rw [List.map_append, List.map_append, hchecked]
  | some message =>
      rw [hfound, Option.map_some] at hfault
      obtain ⟨message', hmessage', hshown⟩ := Option.map_eq_some_iff.1 hfault
      rw [hmessage']
      exact .fault hshown

/-- A source whose lines end with two characters, also within a comment, a use clause and a
statement, and one of them, within a string, with a line feed only. -/
def mixedLines : Source :=
  ⟨"file:///a.npl", ⟨.single, ["a.npl"]⟩,
    "package a // first\r\nuse b /* two\r\nlines */\r\n  .c\r\n" ++
    "function f() -> \x7b\r\n  var x =\r\n    'one\\\ntwo' + g();\r\n\x7d\r\n", false⟩

/-- Two of the findings about it run over several lines, with carriage returns in their snippets. -/
theorem looksLike_compile_unified_mixedLines :
    (∀ s ∈ [mixedLines], Tame s.content.toList) ∧
    mixedLines.unified ≠ mixedLines ∧
    (compile [mixedLines]).messages.map Message.snippet =
      ["var x =\r\n    'one\\\ntwo' + g();", "use b /* two\r\nlines */\r\n  .c", "g"] ∧
    (compile ([mixedLines].map Source.unified)).LooksLike (compile [mixedLines]) := by
  have htame : ∀ s ∈ [mixedLines], Tame s.content.toList := by decide +kernel
  exact ⟨htame, by decide +kernel, by decide +kernel, looksLike_compile_unified htame⟩

end Npl
