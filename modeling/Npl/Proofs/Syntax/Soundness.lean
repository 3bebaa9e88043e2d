import Npl.Proofs.Syntax.Unambiguous
import Npl.Proofs.Syntax.Reading

/-!
# What is read without complaint follows the grammar

Rule by rule: if a reader takes tokens without complaint, then there is a derivation of exactly these
tokens, and the reader answers what the derivation declares. The rules are gone through in the order
in which the readers call each other; a repetition is unrolled turn by turn into the derivation of its
rule.

## Main results

* `Grammar.exists_name_of_takes`, `Grammar.exists_type_of_takes`, … — one statement for each rule.
* `Grammar.exists_file_of_takes` — a file read without complaint has a derivation.
-/

namespace Npl.Grammar

open Reader

/-! ### Names -/

/-- A dot is taken together with a name, or not at all. -/
theorem dotPart_cases {ts rest : List Token} {o : Option (Token × Option Token)} {go : Bool}
    (h : Takes dotPart ts (o, go) rest) :
    (o = none ∧ go = false ∧ ts = rest) ∨
      ∃ (dot : Sym ".") (i : Ident), o = some (dot.1, some i.1) ∧ go = true ∧
        ts = dot.1 :: i.1 :: rest := by
  simp only [dotPart, takes_bind_iff, takes_peek_iff] at h
  obtain ⟨o', mid, ⟨ho, hmid⟩, h⟩ := h
  subst o' mid
  cases ts with
  | nil =>
      simp only [List.head?_nil, takes_pure_iff, Prod.mk.injEq] at h
      obtain ⟨⟨rfl, rfl⟩, rfl⟩ := h
      exact .inl ⟨rfl, rfl, rfl⟩
  | cons dot ts =>
      simp only [List.head?_cons] at h
      split at h
      · next hdot =>
          simp only [takes_bind_iff, takes_skip_iff, takes_name_iff, takes_pure_iff,
            Prod.mk.injEq, List.tail_cons] at h
          obtain ⟨_, _, rfl, _, _, ⟨i, hi, rfl, rfl⟩, ⟨rfl, rfl⟩, rfl⟩ := h
          exact .inr ⟨⟨dot, hdot⟩, ⟨i, hi⟩, rfl, rfl, rfl⟩
      · simp only [takes_pure_iff, Prod.mk.injEq] at h
        obtain ⟨⟨rfl, rfl⟩, rfl⟩ := h
        exact .inl ⟨rfl, rfl, rfl⟩

/-- What is taken behind the first part of a dotted name continues it. -/
theorem exists_name_of_takes_dotted {ts rest : List Token} {ps : List (Token × Option Token)}
    (h : Takes dotted ts ps rest) (i : Ident) :
    ∃ n : Name, n.first = i ∧ i.1 :: ts = n.tokens ++ rest ∧
      n.more.map Subtype.val = ps.filterMap Prod.snd ∧
      n.last.1 = (ps.getLast?.map fun (dot, part) => part.getD dot).getD i.1 := by
  revert i
  refine takes_items_induction (motive := fun ts ps => ∀ i : Ident, ∃ n : Name, n.first = i ∧
    i.1 :: ts = n.tokens ++ rest ∧ n.more.map Subtype.val = ps.filterMap Prod.snd ∧
    n.last.1 = (ps.getLast?.map fun (dot, part) => part.getD dot).getD i.1) ?_ ?_ h
  · intro ts o go hturn hgo i
    rcases dotPart_cases hturn with ⟨rfl, rfl, rfl⟩ | ⟨dot, j, rfl, rfl, rfl⟩
    · exact ⟨.one i, rfl, rfl, rfl, rfl⟩
    · have hlt : rest.length < (dot.1 :: j.1 :: rest).length := by
        simp only [List.length_cons]
        omega
      exact absurd ⟨rfl, hlt⟩ hgo
  · intro ts o mid ps hturn ih i
    rcases dotPart_cases hturn with ⟨_, hfalse, _⟩ | ⟨dot, j, rfl, -, rfl⟩
    · exact Bool.noConfusion hfalse
    · obtain ⟨n, rfl, htokens, hmore, hlast⟩ := ih j
      refine ⟨.cons i dot n, rfl, ?_, ?_, ?_⟩
      · rw [htokens]
        rfl
      · simp [Separated.more, hmore]
      · rw [Separated.last, hlast]
        simp only [Option.toList_some, List.singleton_append, List.getLast?_cons]
        cases ps.getLast? <;> rfl

/-- A dotted name. -/
theorem exists_name_of_takes {ts rest : List Token} {o : Option QualifiedName}
    (h : Takes qualifiedName ts o rest) : ∃ n : Name, o = some n.tree ∧ ts = n.tokens ++ rest := by
  obtain ⟨o', mid, hname, hmore⟩ := takes_bind_iff.1 h
  obtain ⟨i, hi, rfl, rfl⟩ := takes_name_iff.1 hname
  obtain ⟨ps, mid', hdotted, hpure⟩ := takes_bind_iff.1 hmore
  obtain ⟨rfl, rfl⟩ := takes_pure_iff.1 hpure
  obtain ⟨n, hfirst, htokens, hmore, hlast⟩ := exists_name_of_takes_dotted hdotted ⟨i, hi⟩
  refine ⟨n, ?_, htokens⟩
  rw [Name.tree, hfirst, hmore, hlast]

/-! ### Types -/

mutual

/-- A type. -/
theorem exists_type_of_takes {ts rest : List Token} {o : Option TypeRef}
    (h : Takes typeRef ts o rest) : ∃ t : TypeUse, o = some t.tree ∧ ts = t.tokens ++ rest := by
  obtain ⟨token, mid, htoken, hts, ⟨-, rfl, rfl⟩ |
    ⟨bracket, inner, as, stop, close, hbracket, hmid, harguments, hclose, rfl⟩⟩ :=
    takes_typeRef_iff.1 h
  · exact ⟨.plain ⟨token, htoken⟩, rfl, hts⟩
  · have hlt : inner.length < ts.length := by
      rw [hts, hmid]
      simp only [List.length_cons]
      omega
    obtain ⟨t, rfl, hinner⟩ := exists_types_of_takes harguments
    refine ⟨.generic ⟨token, htoken⟩ ⟨bracket, hbracket⟩ t ⟨close, hclose⟩, rfl, ?_⟩
    rw [hts, hmid, hinner]
    simp [TypeUse.tokens]
termination_by (ts.length, 0)

/-- Types with commas between them. -/
theorem exists_types_of_takes {last : Token} {ts rest : List Token} {as : List TypeRef}
    {stop : Token} (h : Takes (typeArguments last) ts (as, stop) rest) :
    ∃ t : TypeUses, as = t.trees ∧ ts = t.tokens ++ rest := by
  obtain ⟨o, mid, hfirst, ⟨comma, more, others, hcomma, rfl, hlt, hothers, rfl⟩ |
    ⟨-, rfl, -, rfl⟩⟩ := takes_typeArguments_iff.1 h
  · obtain ⟨t, rfl, hts⟩ := exists_type_of_takes hfirst
    obtain ⟨u, rfl, rfl⟩ := exists_types_of_takes hothers
    refine ⟨.cons t ⟨comma, hcomma⟩ u, rfl, ?_⟩
    rw [hts]
    simp [TypeUses.tokens]
  · obtain ⟨t, rfl, hts⟩ := exists_type_of_takes hfirst
    exact ⟨.one t, rfl, hts⟩
termination_by (ts.length, 1)

end

/-! ### Fields and parameters -/

/-- The name and the type of a field or parameter. -/
theorem exists_field_of_takes {ts rest : List Token} {o : Option Binding}
    (h : Takes binding ts o rest) : ∃ f : Field, o = some f.tree ∧ ts = f.tokens ++ rest := by
  obtain ⟨o', mid, hname, hmore⟩ := takes_bind_iff.1 h
  obtain ⟨i, hi, rfl, rfl⟩ := takes_name_iff.1 hname
  obtain ⟨type?, mid', hannotation, hpure⟩ := takes_bind_iff.1 hmore
  obtain ⟨rfl, rfl⟩ := takes_pure_iff.1 hpure
  obtain ⟨o', mid'', hcolon, htype⟩ := takes_bind_iff.1 hannotation
  obtain ⟨colon, hmark, rfl, rfl⟩ := takes_symbol_iff.1 hcolon
  obtain ⟨t, rfl, rfl⟩ := exists_type_of_takes htype
  exact ⟨⟨⟨i, hi⟩, ⟨colon, hmark⟩, t⟩, rfl, rfl⟩

/-- Asking whether the fields end takes nothing. -/
theorem takes_fieldsEnd_iff {ts rest : List Token} {b : Bool} :
    Takes fieldsEnd ts b rest ↔
      b = ts.head?.all (fun t => t.isSymbol "\x7d" || t.opensItem) ∧ rest = ts := by
  simp [Takes, fieldsEnd, eq_comm]

/-- A turn over the fields of a structure finds their end, or takes a field with a comma behind it,
or takes the last field. -/
theorem field_cases {ts rest : List Token} {o : Option Binding} {go : Bool}
    (h : Takes field ts (o, go) rest) :
    (o = none ∧ go = false ∧ ts = rest) ∨
      (∃ (f : Field) (comma : Sym ","), o = some f.tree ∧ go = true ∧
        ts = f.tokens ++ comma.1 :: rest) ∨
      ∃ f : Field, o = some f.tree ∧ go = false ∧ ts = f.tokens ++ rest := by
  obtain ⟨b, mid, hend, hturn⟩ := takes_bind_iff.1 h
  obtain ⟨-, rfl⟩ := takes_fieldsEnd_iff.1 hend
  cases b with
  | true =>
      obtain ⟨hvalue, rfl⟩ := takes_pure_iff.1 hturn
      obtain ⟨rfl, rfl⟩ := Prod.mk.inj hvalue
      exact .inl ⟨rfl, rfl, rfl⟩
  | false =>
      obtain ⟨binding?, mid', hbinding, hbehind⟩ := takes_bind_iff.1 hturn
      obtain ⟨f, rfl, rfl⟩ := exists_field_of_takes hbinding
      obtain ⟨c, mid'', hcomma, hthen⟩ := takes_bind_iff.1 hbehind
      rcases takes_skipIf_iff.1 hcomma with ⟨rfl, comma, hmark, rfl⟩ | ⟨rfl, -, rfl⟩
      · obtain ⟨hvalue, rfl⟩ := takes_pure_iff.1 hthen
        obtain ⟨rfl, rfl⟩ := Prod.mk.inj hvalue
        exact .inr (.inl ⟨f, ⟨comma, hmark⟩, rfl, rfl, rfl⟩)
      · obtain ⟨b, mid'', hend', hlast⟩ := takes_bind_iff.1 hthen
        obtain ⟨-, rfl⟩ := takes_fieldsEnd_iff.1 hend'
        cases b with
        | true =>
            obtain ⟨hvalue, rfl⟩ := takes_pure_iff.1 hlast
            obtain ⟨rfl, rfl⟩ := Prod.mk.inj hvalue
            exact .inr (.inr ⟨f, rfl, rfl, rfl⟩)
        | false =>
            -- A field that is followed by neither a comma nor the end leaves a complaint.
            obtain ⟨u, left, hcomplain, -⟩ := takes_bind_iff.1 hlast
            exact absurd hcomplain not_takes_complain

/-- The fields of a structure. -/
theorem exists_fields_of_takes {ts rest : List Token} {bs : List Binding}
    (h : Takes (items field) ts bs rest) :
    ∃ fs : Fields, bs = fs.trees ∧ ts = fs.tokens ++ rest := by
  refine takes_items_induction
    (motive := fun ts bs => ∃ fs : Fields, bs = fs.trees ∧ ts = fs.tokens ++ rest) ?_ ?_ h
  · intro ts o go hturn hgo
    rcases field_cases hturn with ⟨rfl, rfl, rfl⟩ | ⟨f, comma, rfl, rfl, rfl⟩ | ⟨f, rfl, rfl, rfl⟩
    · exact ⟨none, rfl, rfl⟩
    · have hlt : rest.length < (f.tokens ++ comma.1 :: rest).length := by
        simp only [List.length_append, List.length_cons]
        omega
      exact absurd ⟨rfl, hlt⟩ hgo
    · exact ⟨some (.one f, none), rfl, by simp [Fields.tokens, Separated.tokens, optional]⟩
  · intro ts o mid bs hturn ih
    rcases field_cases hturn with ⟨_, hfalse, _⟩ | ⟨f, comma, rfl, -, rfl⟩ | ⟨f, _, hfalse, _⟩
    · simp at hfalse
    · obtain ⟨fs, rfl, rfl⟩ := ih
      cases fs with
      | none =>
          exact ⟨some (.one f, some comma), rfl,
            by simp [Fields.tokens, Separated.tokens, optional]⟩
      | some fs =>
          exact ⟨some (.cons f comma fs.1, fs.2), rfl,
            by simp [Fields.tokens, Separated.tokens]⟩
    · simp at hfalse

/-- A turn over the parameters of a function takes one, with a comma behind it or not. -/
theorem param_cases {ts rest : List Token} {o : Option Binding} {go : Bool}
    (h : Takes param ts (o, go) rest) :
    (∃ (f : Field) (comma : Sym ","), o = some f.tree ∧ go = true ∧
        ts = f.tokens ++ comma.1 :: rest) ∨
      ∃ f : Field, o = some f.tree ∧ go = false ∧ ts = f.tokens ++ rest := by
  obtain ⟨binding?, mid, hbinding, hbehind⟩ := takes_bind_iff.1 h
  obtain ⟨f, rfl, rfl⟩ := exists_field_of_takes hbinding
  obtain ⟨c, mid', hcomma, hpure⟩ := takes_bind_iff.1 hbehind
  obtain ⟨hvalue, rfl⟩ := takes_pure_iff.1 hpure
  obtain ⟨rfl, rfl⟩ := Prod.mk.inj hvalue
  rcases takes_skipIf_iff.1 hcomma with ⟨rfl, comma, hmark, rfl⟩ | ⟨rfl, -, rfl⟩
  · exact .inl ⟨f, ⟨comma, hmark⟩, rfl, rfl, rfl⟩
  · exact .inr ⟨f, rfl, rfl, rfl⟩

/-- One parameter and the others behind it. -/
theorem exists_separated_of_takes {ts rest : List Token} {bs : List Binding}
    (h : Takes (items param) ts bs rest) :
    ∃ fs : Separated "," Field, bs = fs.members.map Field.tree ∧
      ts = fs.tokens Field.tokens ++ rest := by
  refine takes_items_induction (motive := fun ts bs => ∃ fs : Separated "," Field,
    bs = fs.members.map Field.tree ∧ ts = fs.tokens Field.tokens ++ rest) ?_ ?_ h
  · intro ts o go hturn hgo
    rcases param_cases hturn with ⟨f, comma, rfl, rfl, rfl⟩ | ⟨f, rfl, rfl, rfl⟩
    · have hlt : rest.length < (f.tokens ++ comma.1 :: rest).length := by
        simp only [List.length_append, List.length_cons]
        omega
      exact absurd ⟨rfl, hlt⟩ hgo
    · exact ⟨.one f, rfl, rfl⟩
  · intro ts o mid bs hturn ih
    rcases param_cases hturn with ⟨f, comma, rfl, -, rfl⟩ | ⟨f, _, hfalse, _⟩
    · obtain ⟨fs, rfl, rfl⟩ := ih
      exact ⟨.cons f comma fs, rfl, by simp [Separated.tokens]⟩
    · simp at hfalse

/-- The parameters of a function. -/
theorem exists_params_of_takes {ts rest : List Token} {bs : List Binding}
    (h : Takes params ts bs rest) :
    ∃ ps : Params, bs = ps.trees ∧ ts = ps.tokens ++ rest := by
  obtain ⟨b, mid, hnext, hitems⟩ := takes_bind_iff.1 h
  obtain ⟨-, rfl⟩ := takes_next_iff.1 hnext
  cases b with
  | true =>
      obtain ⟨rfl, rfl⟩ := takes_pure_iff.1 hitems
      exact ⟨none, rfl, rfl⟩
  | false =>
      obtain ⟨fs, rfl, rfl⟩ := exists_separated_of_takes hitems
      exact ⟨some fs, rfl, rfl⟩

/-! ### Structures -/

/-- A token that may be left out. -/
theorem exists_optional_of_takes {p : Token → Bool} {ts rest : List Token} {b : Bool}
    (h : Takes (skipIf p) ts b rest) : ∃ o : Option (Terminal p), ts = optional o ++ rest := by
  rcases takes_skipIf_iff.1 h with ⟨-, t, ht, rfl⟩ | ⟨-, -, rfl⟩
  · exact ⟨some ⟨t, ht⟩, rfl⟩
  · exact ⟨none, rfl⟩

/-- A structure behind its keyword. -/
theorem exists_struct_of_takes (keyword : Word "struct") {ts rest : List Token}
    {o : Option StructDecl} (h : Takes (Reader.struct keyword.1) ts o rest) :
    ∃ d : Struct, o = some d.tree ∧ keyword.1 :: ts = d.tokens ++ rest := by
  obtain ⟨o', mid, hname, hbehind⟩ := takes_bind_iff.1 h
  obtain ⟨i, hi, rfl, rfl⟩ := takes_name_iff.1 hname
  obtain ⟨o', mid', hopening, hinside⟩ := takes_bind_iff.1 hbehind
  obtain ⟨opening, ho, rfl, rfl⟩ := takes_symbol_iff.1 hopening
  obtain ⟨bs, mid'', hfields, hclosed⟩ := takes_bind_iff.1 hinside
  obtain ⟨fs, rfl, rfl⟩ := exists_fields_of_takes hfields
  obtain ⟨o', left, hclosing, hlast⟩ := takes_bind_iff.1 hclosed
  obtain ⟨closing, hc, rfl, rfl⟩ := takes_symbol_iff.1 hclosing
  obtain ⟨b, left', hsemicolon, hpure⟩ := takes_bind_iff.1 hlast
  obtain ⟨semicolon, rfl⟩ := exists_optional_of_takes hsemicolon
  obtain ⟨rfl, rfl⟩ := takes_pure_iff.1 hpure
  exact ⟨⟨keyword, ⟨i, hi⟩, ⟨opening, ho⟩, fs, ⟨closing, hc⟩, semicolon⟩, rfl,
    by simp [Struct.tokens]⟩

/-! ### Functions -/

/-- What a cut leaves in front of a token is enclosed, and the token is the first one that ends it. -/
theorem encloses_of_cut {p : Token → Bool} {ts inside rest : List Token} {t : Token}
    (h : cut p 0 ts = (inside, t :: rest)) :
    Encloses p inside ∧ p t = true ∧ ts = inside ++ t :: rest := by
  have hrest := cut_rest p 0 ts
  have hunmet := cut_unmet p 0 ts
  have happend := cut_append p 0 ts
  rw [h] at hrest hunmet happend
  rcases hrest with hnil | ⟨u, us, hcons, hu, hdepth⟩
  · simp at hnil
  · obtain ⟨rfl, rfl⟩ := List.cons.inj hcons
    exact ⟨⟨hdepth, hunmet⟩, hu, happend.symm⟩

/-- A block behind its opening brace. -/
theorem encloses_of_takes_block {ts rest : List Token} {o : Option (List Token × Token)}
    (h : Takes block ts o rest) :
    ∃ (inside : List Token) (closing : Sym "\x7d"), Encloses endsBlock inside ∧
      o = some (inside, closing.1) ∧ ts = inside ++ closing.1 :: rest := by
  obtain ⟨inside, mid, hrun, hbehind⟩ := takes_bind_iff.1 h
  rw [takes_run_iff] at hrun
  obtain ⟨o', mid', hpeek, hclose⟩ := takes_bind_iff.1 hbehind
  obtain ⟨ho, hmid⟩ := takes_peek_iff.1 hpeek
  subst o' mid'
  cases mid with
  | nil =>
      obtain ⟨u, left, hcomplain, -⟩ := takes_bind_iff.1 hclose
      exact absurd hcomplain not_takes_complain
  | cons t mid =>
      obtain ⟨u, left, hskip, hpure⟩ := takes_bind_iff.1 hclose
      obtain rfl := takes_skip_iff.1 hskip
      obtain ⟨rfl, rfl⟩ := takes_pure_iff.1 hpure
      obtain ⟨henclosed, ht, hts⟩ := encloses_of_cut hrun
      exact ⟨inside, ⟨t, ht⟩, henclosed, rfl, hts⟩

/-- An expression and the semicolon behind it. -/
theorem encloses_of_takes_expression {ts rest : List Token} {o : Option (List Token × Token)}
    (h : Takes expression ts o rest) :
    ∃ (inside : List Token) (semicolon : Sym ";"), Encloses endsExpression inside ∧ inside ≠ [] ∧
      o = some (inside, semicolon.1) ∧ ts = inside ++ semicolon.1 :: rest := by
  obtain ⟨inside, mid, hrun, hbehind⟩ := takes_bind_iff.1 h
  rw [takes_run_iff] at hrun
  cases hlast : inside.getLast? with
  | none =>
      simp only [hlast] at hbehind
      obtain ⟨u, left, hcomplain, -⟩ := takes_bind_iff.1 hbehind
      exact absurd hcomplain not_takes_complain
  | some last =>
      simp only [hlast] at hbehind
      obtain ⟨o', mid', hpeek, hstop⟩ := takes_bind_iff.1 hbehind
      obtain ⟨ho, hmid⟩ := takes_peek_iff.1 hpeek
      subst o' mid'
      cases mid with
      | nil =>
          obtain ⟨u, left, hcomplain, -⟩ := takes_bind_iff.1 hstop
          exact absurd hcomplain not_takes_complain
      | cons t mid =>
          simp only [List.head?_cons] at hstop
          split at hstop
          · next ht =>
              obtain ⟨u, left, hskip, hpure⟩ := takes_bind_iff.1 hstop
              obtain rfl := takes_skip_iff.1 hskip
              obtain ⟨rfl, rfl⟩ := takes_pure_iff.1 hpure
              obtain ⟨henclosed, -, hts⟩ := encloses_of_cut hrun
              refine ⟨inside, ⟨t, ht⟩, henclosed, ?_, rfl, hts⟩
              rintro rfl
              simp at hlast
          · obtain ⟨u, left, hcomplain, -⟩ := takes_bind_iff.1 hstop
            exact absurd hcomplain not_takes_complain

/-- The body of a function behind its arrow. -/
theorem exists_body_of_takes {ts rest : List Token} {b : Bool} {o : Option (List Token × Token)}
    (h : Takes functionBody ts (b, o) rest) :
    ∃ d : Body, b = d.isBlock ∧ o = some (d.kept, d.stop) ∧ ts = d.tokens ++ rest := by
  obtain ⟨braced, mid, hskip, hbehind⟩ := takes_bind_iff.1 h
  rcases takes_skipIf_iff.1 hskip with ⟨rfl, opening, ho, rfl⟩ | ⟨rfl, hunbraced, rfl⟩
  · obtain ⟨o', mid', hblock, hlast⟩ := takes_bind_iff.1 hbehind
    obtain ⟨inside, closing, henclosed, rfl, rfl⟩ := encloses_of_takes_block hblock
    obtain ⟨b', left, hsemicolon, hpure⟩ := takes_bind_iff.1 hlast
    obtain ⟨semicolon, rfl⟩ := exists_optional_of_takes hsemicolon
    obtain ⟨hvalue, rfl⟩ := takes_pure_iff.1 hpure
    obtain ⟨rfl, rfl⟩ := Prod.mk.inj hvalue
    exact ⟨.block ⟨opening, ho⟩ inside henclosed closing semicolon, rfl, rfl,
      by simp [Body.tokens]⟩
  · obtain ⟨o', mid', hexpression, hpure⟩ := takes_bind_iff.1 hbehind
    obtain ⟨inside, semicolon, henclosed, hne, rfl, rfl⟩ :=
      encloses_of_takes_expression hexpression
    obtain ⟨hvalue, rfl⟩ := takes_pure_iff.1 hpure
    obtain ⟨rfl, rfl⟩ := Prod.mk.inj hvalue
    have hhead : inside.head?.any (·.isSymbol "\x7b") = false := by
      cases inside with
      | nil => exact absurd rfl hne
      | cons t inside => simpa using hunbraced
    exact ⟨.expression inside henclosed hne hhead semicolon, rfl, rfl, by simp [Body.tokens]⟩

/-- The declared result of a function. -/
theorem exists_result_of_takes {ts rest : List Token} {o : Option TypeRef}
    (h : Takes returnType ts o rest) : ∃ r : Result, o = r.tree? ∧ ts = r.tokens ++ rest := by
  obtain ⟨b, mid, hskip, hbehind⟩ := takes_bind_iff.1 h
  rcases takes_skipIf_iff.1 hskip with ⟨rfl, keyword, hk, rfl⟩ | ⟨rfl, -, rfl⟩
  · obtain ⟨t, rfl, rfl⟩ := exists_type_of_takes hbehind
    exact ⟨some (⟨keyword, hk⟩, t), rfl, rfl⟩
  · obtain ⟨rfl, rfl⟩ := takes_pure_iff.1 hbehind
    exact ⟨none, rfl, rfl⟩

/-- A function behind its keyword. -/
theorem exists_function_of_takes (keyword : Word "function") {ts rest : List Token}
    {o : Option FunctionDecl} (h : Takes (Reader.function keyword.1) ts o rest) :
    ∃ d : Function, o = some d.tree ∧ keyword.1 :: ts = d.tokens ++ rest := by
  obtain ⟨o', mid, hname, hbehind⟩ := takes_bind_iff.1 h
  obtain ⟨i, hi, rfl, rfl⟩ := takes_name_iff.1 hname
  obtain ⟨o', mid', hopening, hinside⟩ := takes_bind_iff.1 hbehind
  obtain ⟨opening, ho, rfl, rfl⟩ := takes_symbol_iff.1 hopening
  obtain ⟨bs, mid'', hparams, hclosed⟩ := takes_bind_iff.1 hinside
  obtain ⟨ps, rfl, rfl⟩ := exists_params_of_takes hparams
  obtain ⟨o', mid₃, hclosing, hresulting⟩ := takes_bind_iff.1 hclosed
  obtain ⟨closing, hc, rfl, rfl⟩ := takes_symbol_iff.1 hclosing
  obtain ⟨o', mid₄, hresult, harrowed⟩ := takes_bind_iff.1 hresulting
  obtain ⟨result, rfl, rfl⟩ := exists_result_of_takes hresult
  obtain ⟨o', mid₅, harrow, hbodied⟩ := takes_bind_iff.1 harrowed
  obtain ⟨arrow, ha, rfl, rfl⟩ := takes_symbol_iff.1 harrow
  obtain ⟨⟨b, o'⟩, mid₆, hbody, hpure⟩ := takes_bind_iff.1 hbodied
  obtain ⟨body, rfl, rfl, rfl⟩ := exists_body_of_takes hbody
  obtain ⟨rfl, rfl⟩ := takes_pure_iff.1 hpure
  exact ⟨⟨keyword, ⟨i, hi⟩, ⟨opening, ho⟩, ps, ⟨closing, hc⟩, result, ⟨arrow, ha⟩, body⟩, rfl,
    by simp [Function.tokens]⟩

/-! ### Files -/

/-- A use clause behind its keyword. -/
theorem exists_use_of_takes (keyword : Word "use") {ts rest : List Token} {o : Option UseClause}
    (h : Takes (useClause keyword.1) ts o rest) :
    ∃ u : Use, o = some u.tree ∧ keyword.1 :: ts = u.tokens ++ rest := by
  obtain ⟨o', mid, hname, hbehind⟩ := takes_bind_iff.1 h
  obtain ⟨n, rfl, rfl⟩ := exists_name_of_takes hname
  obtain ⟨b, mid', hsemicolon, hpure⟩ := takes_bind_iff.1 hbehind
  obtain ⟨semicolon, rfl⟩ := exists_optional_of_takes hsemicolon
  obtain ⟨rfl, rfl⟩ := takes_pure_iff.1 hpure
  exact ⟨⟨keyword, n, semicolon⟩, rfl, by simp [Use.tokens]⟩

/-- A turn over the items of a file finds the end of the file or takes an item. -/
theorem item_cases {ts rest : List Token} {o : Option (UseClause ⊕ Declaration)} {go : Bool}
    (h : Takes item ts (o, go) rest) :
    (o = none ∧ go = false ∧ ts = [] ∧ rest = []) ∨
      ∃ i : Item, o = some i.tree ∧ go = true ∧ ts = i.tokens ++ rest := by
  obtain ⟨o', mid, hpeek, hbehind⟩ := takes_bind_iff.1 h
  obtain ⟨ho, hmid⟩ := takes_peek_iff.1 hpeek
  subst o' mid
  cases ts with
  | nil =>
      obtain ⟨hvalue, rfl⟩ := takes_pure_iff.1 hbehind
      obtain ⟨rfl, rfl⟩ := Prod.mk.inj hvalue
      exact .inl ⟨rfl, rfl, rfl, rfl⟩
  | cons t ts =>
      right
      simp only [List.head?_cons] at hbehind
      split at hbehind
      · next ht =>
          obtain ⟨u, left, hskip, htake⟩ := takes_bind_iff.1 hbehind
          obtain rfl := takes_skip_iff.1 hskip
          obtain ⟨o', left', huse, hpure⟩ := takes_bind_iff.1 htake
          obtain ⟨u, rfl, hts⟩ := exists_use_of_takes ⟨t, ht⟩ huse
          obtain ⟨hvalue, rfl⟩ := takes_pure_iff.1 hpure
          obtain ⟨rfl, rfl⟩ := Prod.mk.inj hvalue
          exact ⟨.use u, rfl, rfl, hts⟩
      · split at hbehind
        · next ht =>
            obtain ⟨u, left, hskip, htake⟩ := takes_bind_iff.1 hbehind
            obtain rfl := takes_skip_iff.1 hskip
            obtain ⟨o', left', hstruct, hpure⟩ := takes_bind_iff.1 htake
            obtain ⟨d, rfl, hts⟩ := exists_struct_of_takes ⟨t, ht⟩ hstruct
            obtain ⟨hvalue, rfl⟩ := takes_pure_iff.1 hpure
            obtain ⟨rfl, rfl⟩ := Prod.mk.inj hvalue
            exact ⟨.struct d, rfl, rfl, hts⟩
        · split at hbehind
          · next ht =>
              obtain ⟨u, left, hskip, htake⟩ := takes_bind_iff.1 hbehind
              obtain rfl := takes_skip_iff.1 hskip
              obtain ⟨o', left', hfunction, hpure⟩ := takes_bind_iff.1 htake
              obtain ⟨d, rfl, hts⟩ := exists_function_of_takes ⟨t, ht⟩ hfunction
              obtain ⟨hvalue, rfl⟩ := takes_pure_iff.1 hpure
              obtain ⟨rfl, rfl⟩ := Prod.mk.inj hvalue
              exact ⟨.function d, rfl, rfl, hts⟩
          · obtain ⟨u, left, hcomplain, -⟩ := takes_bind_iff.1 hbehind
            exact absurd hcomplain not_takes_complain

/-- The items of a file, up to its end. -/
theorem exists_items_of_takes {ts rest : List Token} {as : List (UseClause ⊕ Declaration)}
    (h : Takes (items item) ts as rest) :
    ∃ is : List Item, as = is.map Item.tree ∧ ts = is.flatMap Item.tokens ∧ rest = [] := by
  refine takes_items_induction (motive := fun ts as => ∃ is : List Item,
    as = is.map Item.tree ∧ ts = is.flatMap Item.tokens ∧ rest = []) ?_ ?_ h
  · intro ts o go hturn hgo
    rcases item_cases hturn with ⟨rfl, rfl, rfl, rfl⟩ | ⟨i, rfl, rfl, rfl⟩
    · exact ⟨[], rfl, rfl, rfl⟩
    · obtain ⟨t, us, hi, -⟩ := i.exists_opensItem
      have hlt : rest.length < (i.tokens ++ rest).length := by
        simp only [hi, List.cons_append, List.length_cons, List.length_append]
        omega
      exact absurd ⟨rfl, hlt⟩ hgo
  · intro ts o mid as hturn ih
    rcases item_cases hturn with ⟨_, hfalse, _⟩ | ⟨i, rfl, -, rfl⟩
    · simp at hfalse
    · obtain ⟨is, rfl, rfl, rfl⟩ := ih
      exact ⟨i :: is, rfl, by simp, rfl⟩

/-- **Soundness.** What is read as a file without complaint is a file, is read to its end, and gives
the tree of its derivation. -/
theorem exists_file_of_takes {ts rest : List Token} {t : Tree} (h : Takes Reader.tree ts t rest) :
    ∃ f : File, t = f.tree ∧ ts = f.tokens ∧ rest = [] := by
  obtain ⟨package?, mid, hpackage, hbehind⟩ := takes_bind_iff.1 h
  obtain ⟨as, mid', hitems, hpure⟩ := takes_bind_iff.1 hbehind
  obtain ⟨rfl, rfl⟩ := takes_pure_iff.1 hpure
  obtain ⟨is, rfl, rfl, rfl⟩ := exists_items_of_takes hitems
  obtain ⟨b, left, hkeyword, hnamed⟩ := takes_bind_iff.1 hpackage
  rcases takes_skipIf_iff.1 hkeyword with ⟨rfl, keyword, hk, rfl⟩ | ⟨rfl, -, rfl⟩
  · obtain ⟨o, left', hname, hended⟩ := takes_bind_iff.1 hnamed
    obtain ⟨n, rfl, rfl⟩ := exists_name_of_takes hname
    obtain ⟨b, left', hsemicolon, hvalue⟩ := takes_bind_iff.1 hended
    obtain ⟨semicolon, rfl⟩ := exists_optional_of_takes hsemicolon
    obtain ⟨rfl, rfl⟩ := takes_pure_iff.1 hvalue
    exact ⟨⟨⟨keyword, hk⟩, n, semicolon, is⟩, rfl, rfl, rfl⟩
  · obtain ⟨u, left', hcomplain, -⟩ := takes_bind_iff.1 hnamed
    exact absurd hcomplain not_takes_complain

end Npl.Grammar
