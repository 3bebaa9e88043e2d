import Npl.Program.Compile
import Npl.Proofs.Diagnostic
import Npl.Proofs.Program.Untyped
import Npl.Proofs.Syntax.Provenance
import Npl.Proofs.Syntax.Tokens

/-!
# What messages point at

Whatever the compiler finds, it finds at a token of some source, or at the end of its text. So every
message points at a piece of the source that it names: there is its snippet, at its line and column.
The range that the editor gets for it covers exactly that piece.

## Main definitions

* `Message.About` — a message is about a place of a source.
* `Outcome.messages` — all that an outcome tells.

## Main results

* `SourceUnit.about_of_mem_errors`, `SourceUnit.about_of_mem_warnings` — the findings about a unit.
* `about_of_findCircular` — the fault.
* `Outcome.pointsAt_of_mem_messages` — all messages of a compilation point at their text.
-/

namespace Npl

open Text (Position)

/-! ### Reading -/

/-- All tokens of a tree that is read from a text stand in the text. -/
theorem within_parse (text : String) : (parse text).1.Within (Token.Stands text) :=
  (Reader.keeps_tree _ fun _ => Token.stands_of_mem_ofText).value

/-- All errors in a text stand in it. -/
theorem stands_of_mem_parse {text : String} {e : SyntaxError} (h : e ∈ (parse text).2) :
    e.Stands text := by
  rcases List.mem_append.1 h with hstray | hcomplaint
  · exact SyntaxError.stands_of_mem_strayErrors hstray
  · obtain ⟨c, hc, rfl⟩ := List.mem_map.1 hcomplaint
    have hreading : (Reader.tree (TokenList.ofText text).tokens).Within (Token.Stands text) _ :=
      Reader.keeps_tree _ fun _ => Token.stands_of_mem_ofText
    cases htoken : c.token? with
    | some t =>
        have hstands : t.Stands text := hreading.complaints c hc t htoken
        rw [Complaint.toError, htoken]
        exact hstands
    | none =>
        rw [Complaint.toError, htoken]
        exact .nil TokenList.stop_in_ofText

/-! ### Messages about a source -/

/-- The message names the source, and stands in its text. -/
def Message.About (m : Message) (s : Source) : Prop :=
  m.location = s.location ∧ ∃ p, m.StandsAt s.content.toList p

/-- A syntax error that stands in a source is reported about it. -/
theorem SyntaxError.about_report {s : Source} {e : SyntaxError} (h : e.Stands s.content) :
    (e.report s.location).About s :=
  ⟨rfl, e.pos, h, rfl, rfl⟩

namespace SourceUnit

variable {u : SourceUnit}

/-- All tokens of the unit's tree stand in its source. -/
def Sound (u : SourceUnit) : Prop :=
  u.tree.Within (Token.Stands u.source.content)

/-- A unit is sound when it is read. -/
theorem sound_read (s : Source) : (read s).1.Sound :=
  within_parse s.content

/-- The errors in a source are about it. -/
theorem about_of_mem_read {s : Source} {m : Message} (h : m ∈ (read s).2) : m.About s := by
  obtain ⟨e, he, rfl⟩ := List.mem_map.1 h
  exact SyntaxError.about_report (stands_of_mem_parse he)

/-- A finding is about the source if its first token stands there. Its last token may be any. -/
theorem about_report {start : Token} (h : start.Stands u.source.content) (finding : Finding)
    (stop : Token) : (u.report finding start stop).About u.source := by
  refine ⟨rfl, start.pos, ?_, rfl, rfl⟩
  simp only [report, slice, String.toList_ofList]
  exact .cut h.place _

/-! ### Findings about a unit -/

section

variable {S : Token → Prop} {s : Scope} {m : Message}

theorem within_of_mem_structs (h : u.tree.Within S) {d : StructDecl} (hd : d ∈ u.tree.structs) :
    d.Within S := by
  obtain ⟨declaration, hmem, hstruct⟩ := List.mem_filterMap.1 hd
  cases declaration with
  | struct d' =>
      obtain rfl := Option.some.inj hstruct
      exact h.declarations _ hmem
  | function d' => simp [Declaration.struct?] at hstruct

theorem within_of_mem_functions (h : u.tree.Within S) {d : FunctionDecl}
    (hd : d ∈ u.tree.functions) : d.Within S := by
  obtain ⟨declaration, hmem, hfunction⟩ := List.mem_filterMap.1 hd
  cases declaration with
  | struct d' => simp [Declaration.function?] at hfunction
  | function d' =>
      obtain rfl := Option.some.inj hfunction
      exact h.declarations _ hmem

theorem about_of_mem_duplicateErrors (h : u.Sound) {i : Nat} (hm : m ∈ u.duplicateErrors s i) :
    m.About u.source := by
  obtain ⟨⟨e, token⟩, hzip, hreport⟩ := List.mem_filterMap.1 hm
  have htoken : token.Stands u.source.content := by
    rcases List.mem_append.1 (List.of_mem_zip hzip).2 with hstruct | hfunction
    · obtain ⟨d, hd, rfl⟩ := List.mem_map.1 hstruct
      exact (within_of_mem_structs h hd).name
    · obtain ⟨d, hd, rfl⟩ := List.mem_map.1 hfunction
      exact (within_of_mem_functions h hd).name
  simp only [Option.ite_none_right_eq_some, Option.some.injEq] at hreport
  obtain ⟨-, rfl⟩ := hreport
  exact about_report htoken _ _

theorem about_of_mem_importErrors (h : u.Sound) (hm : m ∈ u.importErrors s) : m.About u.source := by
  obtain ⟨c, hc, rfl⟩ := List.mem_map.1 hm
  exact about_report (h.uses c (List.mem_filter.1 hc).1).keyword _ _

/-- The arguments of types are made of the same tokens, and so are theirs. -/
theorem within_of_mem_levels {refs : List TypeRef}
    (h : ∀ r ∈ refs, r.Within S) : ∀ r ∈ TypeRef.levels refs, r.Within S := by
  fun_induction TypeRef.levels refs with
  | case1 => simp
  | case2 r refs ih =>
      have harguments : ∀ a ∈ (r :: refs).flatMap TypeRef.arguments, a.Within S := by
        intro a ha
        obtain ⟨outer, houter, hargument⟩ := List.mem_flatMap.1 ha
        cases h outer houter with
        | mk _ hinner _ => exact hinner a hargument
      intro a ha
      rcases List.mem_append.1 ha with hhere | hdeeper
      · exact h a hhere
      · exact ih harguments a hdeeper

theorem within_of_mem_typeRefs (h : u.tree.Within S) : ∀ r ∈ u.typeRefs, r.Within S := by
  intro r hr
  rcases List.mem_append.1 hr with hstruct | hfunction
  · obtain ⟨d, hd, hfield⟩ := List.mem_flatMap.1 hstruct
    obtain ⟨b, hb, htype⟩ := List.mem_filterMap.1 hfield
    exact ((within_of_mem_structs h hd).fields b hb).type r htype
  · obtain ⟨d, hd, hmem⟩ := List.mem_flatMap.1 hfunction
    rcases List.mem_append.1 hmem with hparam | hresult
    · obtain ⟨b, hb, htype⟩ := List.mem_filterMap.1 hparam
      exact ((within_of_mem_functions h hd).params b hb).type r htype
    · exact (within_of_mem_functions h hd).result r (Option.mem_toList.1 hresult)

theorem about_of_mem_typeErrors (h : u.Sound) (hm : m ∈ u.typeErrors s) : m.About u.source := by
  obtain ⟨r, hr, rfl⟩ := List.mem_map.1 hm
  cases within_of_mem_levels (within_of_mem_typeRefs h) r (List.mem_filter.1 hr).1 with
  | mk htoken _ _ => exact about_report htoken _ _

end

end SourceUnit

/-! ### Bodies -/

namespace Body

/-- A name that is called is a token of the body. -/
theorem freeCallsFrom_subset (member : Bool) (body : List Token) :
    freeCallsFrom member body ⊆ body := by
  fun_induction freeCallsFrom member body
  case case1 member t u ts others hcall ih =>
    intro x hx
    rcases List.mem_cons.1 hx with rfl | hx
    · exact List.mem_cons_self
    · exact List.mem_cons_of_mem _ (ih hx)
  case case2 member t u ts others hcall ih => exact fun x hx => List.mem_cons_of_mem _ (ih hx)
  case case3 => simp

/-- The semicolon that ends a statement is a token of the body. -/
theorem mem_of_semicolon? {depth : Int} {body : List Token} {t : Token}
    (h : semicolon? depth body = some t) : t ∈ body := by
  fun_induction semicolon? depth body with
  | case1 => simp at h
  | case2 _ _ _ _ ih => exact List.mem_cons_of_mem _ (ih h)
  | case3 _ _ _ _ _ ih => exact List.mem_cons_of_mem _ (ih h)
  | case4 depth u us _ _ _ =>
      obtain rfl := Option.some.inj h
      exact List.mem_cons_self
  | case5 _ _ _ _ _ _ ih => exact List.mem_cons_of_mem _ (ih h)

/-- The last token of a variable's statement is a token of the body. -/
theorem stop_mem_of_mem_declared {body : List Token} {v : Variable} (h : v ∈ declared body) :
    v.stop ∈ body := by
  fun_induction declared body with
  | case1 t u ts others hvar ih =>
      rcases List.mem_cons.1 h with rfl | h
      · simp only
        cases hend : semicolon? 0 (t :: u :: ts) with
        | some stop => exact mem_of_semicolon? hend
        | none => exact List.mem_cons_of_mem _ (List.getLast_mem _)
      · exact List.mem_cons_of_mem _ (ih h)
  | case2 t u ts others hvar ih => exact List.mem_cons_of_mem _ (ih h)
  | case3 => simp at h

/-- The keyword of a variable is a token of the body. -/
theorem keyword_mem_of_mem_declared {body : List Token} {v : Variable} (h : v ∈ declared body) :
    v.keyword ∈ body := by
  fun_induction declared body with
  | case1 t u ts others hvar ih =>
      rcases List.mem_cons.1 h with rfl | h
      · exact List.mem_cons_self
      · exact List.mem_cons_of_mem _ (ih h)
  | case2 t u ts others hvar ih => exact List.mem_cons_of_mem _ (ih h)
  | case3 => simp at h

end Body

namespace SourceUnit

variable {u : SourceUnit} {s : Scope} {m : Message}

theorem about_of_mem_callErrors (h : u.Sound) {d : FunctionDecl} (hd : d ∈ u.tree.functions)
    (hm : m ∈ u.callErrors s d) : m.About u.source := by
  obtain ⟨t, ht, rfl⟩ := List.mem_map.1 hm
  have hbody : t ∈ d.body := Body.freeCallsFrom_subset _ _ (List.mem_filter.1 ht).1
  exact about_report ((within_of_mem_functions h hd).body t hbody) _ _

theorem about_of_mem_returnErrors (h : u.Sound) {d : FunctionDecl} (hd : d ∈ u.tree.functions)
    (hm : m ∈ u.returnErrors d) : m.About u.source := by
  unfold returnErrors at hm
  split at hm
  · simp at hm
  · split at hm
    · obtain rfl := List.mem_singleton.1 hm
      exact about_report (within_of_mem_functions h hd).keyword _ _
    · simp at hm

/-- The errors of a unit are about its source. -/
theorem about_of_mem_errors (h : u.Sound) {i : Nat} (hm : m ∈ u.errors s i) : m.About u.source := by
  rcases List.mem_append.1 hm with hm | hfunction
  · rcases List.mem_append.1 hm with hm | htype
    · rcases List.mem_append.1 hm with hduplicate | himport
      · exact about_of_mem_duplicateErrors h hduplicate
      · exact about_of_mem_importErrors h himport
    · exact about_of_mem_typeErrors h htype
  · obtain ⟨d, hd, hm⟩ := List.mem_flatMap.1 hfunction
    rcases List.mem_append.1 hm with hcall | hreturn
    · exact about_of_mem_callErrors h hd hcall
    · exact about_of_mem_returnErrors h hd hreturn

/-- The warnings of a unit are about its source. -/
theorem about_of_mem_warnings (h : u.Sound) (hm : m ∈ u.warnings) : m.About u.source := by
  obtain ⟨d, hd, hvariable⟩ := List.mem_flatMap.1 hm
  obtain ⟨v, hv, rfl⟩ := List.mem_map.1 hvariable
  have hbody : v.keyword ∈ d.body := Body.keyword_mem_of_mem_declared (List.mem_filter.1 hv).1
  exact about_report ((within_of_mem_functions h hd).body _ hbody) _ _

end SourceUnit

/-! ### Undetermined types -/

namespace Untyped

/-- The function is one of the unit that it is said to lie in, and the unit is among the given
ones. -/
def From (units : List SourceUnit) (f : Untyped) : Prop :=
  f.unit ∈ units ∧ f.decl ∈ f.unit.tree.functions

theorem from_of_mem_ofUnits {units : List SourceUnit} {f : Untyped} (h : f ∈ ofUnits units) :
    f.From units := by
  obtain ⟨u, hu, hmem⟩ := List.mem_flatMap.1 (List.mem_of_find?_eq_some (mem_firsts_iff.1 h))
  obtain ⟨d, hd, rfl⟩ := List.mem_map.1 hmem
  exact ⟨hu, (List.mem_filter.1 hd).1⟩

theorem mem_of_first? {fs : List Untyped} {f : Untyped} (h : first? fs = some f) : f ∈ fs := by
  cases fs with
  | nil => simp [first?] at h
  | cons g gs =>
      have fold : ∀ least : Untyped,
          gs.foldl (fun least g => if g.before least then g else least) least ∈ least :: gs := by
        clear h
        induction gs with
        | nil => simp
        | cons g' gs ih =>
            intro least
            rw [List.foldl_cons]
            split
            · exact List.mem_cons_of_mem _ (ih g')
            · rcases List.mem_cons.1 (ih least) with heq | hmem
              · rw [heq]
                exact List.mem_cons_self
              · exact List.mem_cons_of_mem _ (List.mem_cons_of_mem _ hmem)
      obtain rfl := Option.some.inj h
      exact fold g

end Untyped

/-- The fault is about the source of one of the units. -/
theorem about_of_findCircular {search : Graph.Search (String × String)} {units : List SourceUnit}
    (h : ∀ u ∈ units, u.Sound) {m : Message} (hm : findCircular search units = some m) :
    ∃ u ∈ units, m.About u.source := by
  obtain ⟨es, f, -, hfirst, rfl⟩ := findCircular_eq_some_iff.1 hm
  have hmem := (Untyped.mem_of_mem_members (Untyped.mem_of_first? hfirst)).1
  obtain ⟨hunit, hdecl⟩ := Untyped.from_of_mem_ofUnits hmem
  have hkeyword := (SourceUnit.within_of_mem_functions (h _ hunit) hdecl).keyword
  exact ⟨f.unit, hunit, SourceUnit.about_report hkeyword _ _⟩

/-! ### Compiling -/

/-- All that an outcome tells. -/
def Outcome.messages : Outcome → List Message
  | finished report => report.messages
  | fault message => [message]

theorem Report.messages_ofFindings (errors warnings : List Message) :
    (ofFindings errors warnings).messages = warnings ++ errors := by
  unfold ofFindings
  split
  · next hnone =>
      rw [List.isEmpty_iff.1 hnone, List.append_nil]
      rfl
  · rfl

/-- The findings about units are about the source of one of them. -/
theorem about_of_mem_check {units : List SourceUnit} (h : ∀ u ∈ units, u.Sound) {skip : List Path}
    {m : Message} (hm : m ∈ (check units skip).1 ∨ m ∈ (check units skip).2) :
    ∃ u ∈ units, m.About u.source := by
  rcases hm with herror | hwarning
  · obtain ⟨found, hfound, hm⟩ := List.mem_flatten.1 herror
    obtain ⟨i, hi, rfl⟩ := List.mem_mapIdx.1 hfound
    split at hm
    · exact ⟨units[i], List.getElem_mem hi, SourceUnit.about_of_mem_errors
        (h _ (List.getElem_mem hi)) hm⟩
    · simp at hm
  · obtain ⟨u, hu, hm⟩ := List.mem_flatMap.1 hwarning
    have hmem := (List.mem_filter.1 hu).1
    exact ⟨u, hmem, SourceUnit.about_of_mem_warnings (h u hmem) hm⟩

/-- Every message of a compilation is about one of the sources. -/
theorem Outcome.about_of_mem_messages {sources : List Source} {m : Message}
    (h : m ∈ (compile sources).messages) : ∃ s ∈ sources, m.About s := by
  have hunits : ∀ u ∈ (readAll sources).map Prod.fst, u.Sound ∧ u.source ∈ sources := by
    intro u hu
    obtain ⟨read, hread, rfl⟩ := List.mem_map.1 hu
    obtain ⟨s, hs, rfl⟩ := List.mem_map.1 hread
    exact ⟨SourceUnit.sound_read s, hs⟩
  unfold compile at h
  simp only at h
  split at h
  · next fault hfault =>
      obtain rfl := List.mem_singleton.1 h
      obtain ⟨u, hu, habout⟩ := about_of_findCircular
        (fun u hu => (hunits u (List.mem_filter.1 hu).1).1) hfault
      exact ⟨u.source, (hunits u (List.mem_filter.1 hu).1).2, habout⟩
  · rw [messages, Report.messages_ofFindings] at h
    have hcheck : ∀ {broken : List Path}, m ∈ (check ((readAll sources).map Prod.fst) broken).1 ∨
        m ∈ (check ((readAll sources).map Prod.fst) broken).2 → ∃ s ∈ sources, m.About s := by
      intro broken hm
      obtain ⟨u, hu, habout⟩ := about_of_mem_check (fun u hu => (hunits u hu).1) hm
      exact ⟨u.source, (hunits u hu).2, habout⟩
    rcases List.mem_append.1 h with hwarning | herror
    · exact hcheck (.inr hwarning)
    · rcases List.mem_append.1 herror with hsyntax | herror
      · obtain ⟨read, hread, hm⟩ := List.mem_flatMap.1 hsyntax
        obtain ⟨s, hs, rfl⟩ := List.mem_map.1 hread
        exact ⟨s, hs, SourceUnit.about_of_mem_read hm⟩
      · exact hcheck (.inl herror)

/-- A message about a text that is not too long has a diagnostic, whose range covers the snippet. -/
theorem Message.About.exists_diagnostic {s : Source} {m : Message} (h : m.About s)
    (hlength : s.content.length < 2 ^ 31) : m.location = s.location ∧ ∃ o,
      m.PointsAt s.content.toList o ∧
      ∃ d, m.toDiagnostic = .ok d ∧ d.range.start.offset? s.content.toList = some o ∧
        d.range.stop.offset? s.content.toList = some (o + m.snippet.length) := by
  obtain ⟨hlocation, p, hstands⟩ := h
  rw [← String.length_toList] at hlength
  exact ⟨hlocation, p.offset, hstands.pointsAt, hstands.exists_diagnostic hlength⟩

/-- **Messages point at their text.** Every message of a compilation, be it a syntax error, another
error, a warning or a fault, names one of the sources and points at its snippet there. If no source
is longer than the protocol allows, the message has a diagnostic, and the range of the diagnostic
covers the snippet: it starts at the same offset and ends behind the last character of the snippet,
on however many lines that runs. -/
theorem Outcome.pointsAt_of_mem_messages {sources : List Source}
    (hlength : ∀ s ∈ sources, s.content.length < 2 ^ 31) :
    ∀ m ∈ (compile sources).messages, ∃ s ∈ sources, ∃ o, m.location = s.location ∧
      m.PointsAt s.content.toList o ∧
      ∃ d, m.toDiagnostic = .ok d ∧ d.range.start.offset? s.content.toList = some o ∧
        d.range.stop.offset? s.content.toList = some (o + m.snippet.length) := by
  intro m hm
  obtain ⟨s, hs, habout⟩ := about_of_mem_messages hm
  obtain ⟨hlocation, o, hpoints⟩ := habout.exists_diagnostic (hlength s hs)
  exact ⟨s, hs, o, hlocation, hpoints⟩

/-- A source with a use clause on two lines that refers to nothing. -/
def dangling : Source :=
  ⟨"file:///a.npl", ⟨.single, ["a.npl"]⟩, "package a\nuse b\n.c", false⟩

/-- The finding about the clause. -/
def unresolvedUse : Message :=
  ⟨.unresolvedImport, .error, "Unresolved import 'b.c'", ⟨.single, ["a.npl"]⟩, 2, 1, "use b\n.c"⟩

/-- A finding that runs over two lines points at its text, and its range covers both lines. -/
theorem Outcome.pointsAt_of_mem_messages_dangling :
    (∀ s ∈ [dangling], s.content.length < 2 ^ 31) ∧
    unresolvedUse ∈ (compile [dangling]).messages ∧
    ∃ s ∈ [dangling], ∃ o, unresolvedUse.location = s.location ∧
      unresolvedUse.PointsAt s.content.toList o ∧
      ∃ d, unresolvedUse.toDiagnostic = .ok d ∧
        d.range.start.offset? s.content.toList = some o ∧
        d.range.stop.offset? s.content.toList = some (o + unresolvedUse.snippet.length) := by
  have hlength : ∀ s ∈ [dangling], s.content.length < 2 ^ 31 := by decide
  have hm : unresolvedUse ∈ (compile [dangling]).messages := by decide +kernel
  exact ⟨hlength, hm, Outcome.pointsAt_of_mem_messages hlength unresolvedUse hm⟩

end Npl
