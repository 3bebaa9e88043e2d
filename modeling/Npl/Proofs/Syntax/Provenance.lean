import Npl.Proofs.Syntax.Reading

/-!
# Where trees come from

A reader makes everything out of the tokens that it is given. What holds of all these tokens holds
of the tokens in the tree that is read, of those that are complained about, and of those that are
left.

## Main definitions

* `TypeRef.Within`, …, `Tree.Within` — all tokens of a part of a tree satisfy a property.
* `Reader.Keeps` — a reader makes everything out of tokens with a property.

## Main results

* `Reader.Keeps.bind` — one reader after the other.
* `Reader.keeps_tree` — reading a file makes everything out of its tokens.
-/

namespace Npl

variable {S : Token → Prop}

/-! ### Trees of such tokens -/

/-- All tokens of a dotted name satisfy `S`. -/
structure QualifiedName.Within (S : Token → Prop) (q : QualifiedName) : Prop where
  first : S q.first
  more : ∀ t ∈ q.more, S t
  stop : S q.stop

/-- All tokens of a type satisfy `S`. -/
inductive TypeRef.Within (S : Token → Prop) : TypeRef → Prop
  | mk {token stop : Token} {arguments : List TypeRef} (htoken : S token)
    (harguments : ∀ r ∈ arguments, r.Within S) (hstop : S stop) :
    (TypeRef.mk token arguments stop).Within S

/-- All tokens of a field or parameter satisfy `S`. -/
structure Binding.Within (S : Token → Prop) (b : Binding) : Prop where
  token : S b.token
  type : ∀ r ∈ b.type?, r.Within S

/-- All tokens of a structure satisfy `S`. -/
structure StructDecl.Within (S : Token → Prop) (d : StructDecl) : Prop where
  keyword : S d.keyword
  name : S d.nameToken
  fields : ∀ b ∈ d.fields, b.Within S

/-- All tokens of a function satisfy `S`. -/
structure FunctionDecl.Within (S : Token → Prop) (d : FunctionDecl) : Prop where
  keyword : S d.keyword
  name : S d.nameToken
  params : ∀ b ∈ d.params, b.Within S
  result : ∀ r ∈ d.returns?, r.Within S
  body : ∀ t ∈ d.body, S t
  stop : S d.stop

/-- All tokens of a declaration satisfy `S`. -/
def Declaration.Within (S : Token → Prop) : Declaration → Prop
  | struct d => d.Within S
  | function d => d.Within S

/-- All tokens of a use clause satisfy `S`. -/
structure UseClause.Within (S : Token → Prop) (c : UseClause) : Prop where
  keyword : S c.keyword
  name : c.name.Within S

/-- All tokens of a tree satisfy `S`. -/
structure Tree.Within (S : Token → Prop) (t : Tree) : Prop where
  package : ∀ q ∈ t.package?, q.Within S
  uses : ∀ c ∈ t.uses, c.Within S
  declarations : ∀ d ∈ t.declarations, d.Within S

/-! ### Readings of such tokens -/

/-- The value of a reading satisfies `V`, and the tokens complained about and those left satisfy
`S`. -/
structure Reading.Within {α : Type} (S : Token → Prop) (V : α → Prop) (r : Reading α) : Prop where
  value : V r.value
  complaints : ∀ c ∈ r.complaints, ∀ t ∈ c.token?, S t
  rest : ∀ t ∈ r.rest, S t

namespace Reader

variable {α β : Type} {V : α → Prop} {W : β → Prop}

/-- From tokens that satisfy `S` the reader makes a value that satisfies `V`, and it complains about
and leaves such tokens only. -/
def Keeps (S : Token → Prop) (V : α → Prop) (p : Reader α) : Prop :=
  ∀ ts, (∀ t ∈ ts, S t) → (p ts).Within S V

/-- One reader after the other. -/
theorem Keeps.bind {p : Reader α} {f : α → Reader β} (hp : p.Keeps S V)
    (hf : ∀ a, V a → (f a).Keeps S W) : (p >>= f).Keeps S W := by
  intro ts hts
  have hfirst := hp ts hts
  have hsecond := hf _ hfirst.value _ hfirst.rest
  refine ⟨hsecond.value, ?_, hsecond.rest⟩
  intro c hc
  rcases List.mem_append.1 hc with hc | hc
  · exact hfirst.complaints c hc
  · exact hsecond.complaints c hc

theorem Keeps.pure {a : α} (ha : V a) : Keeps S V (Pure.pure a : Reader α) :=
  fun _ hts => ⟨ha, by simp [Pure.pure, Reader.pure], hts⟩

theorem Keeps.ite {c : Prop} [Decidable c] {p q : Reader α} (hp : p.Keeps S V)
    (hq : q.Keeps S V) : (if c then p else q).Keeps S V := by
  split
  · exact hp
  · exact hq

/-! ### Single tokens -/

theorem keeps_peek : peek.Keeps S fun t? => ∀ t ∈ t?, S t :=
  fun _ hts => ⟨fun _ ht => hts _ (List.mem_of_mem_head? ht), by simp [peek], hts⟩

theorem keeps_next (p : Token → Bool) : (next p).Keeps S fun _ => True :=
  fun _ hts => ⟨trivial, by simp [next], hts⟩

theorem keeps_skip : skip.Keeps S fun _ => True :=
  fun _ hts => ⟨trivial, by simp [skip], fun _ ht => hts _ (List.mem_of_mem_tail ht)⟩

theorem keeps_skipIf (p : Token → Bool) : (skipIf p).Keeps S fun _ => True := by
  intro ts hts
  fun_cases skipIf p ts with
  | case1 => exact ⟨trivial, by simp, hts⟩
  | case2 t ts hp => exact ⟨trivial, by simp, fun u hu => hts u (List.mem_cons_of_mem _ hu)⟩
  | case3 t ts hp => exact ⟨trivial, by simp, hts⟩

theorem keeps_skipTo (p : Token → Bool) : (skipTo p).Keeps S fun _ => True :=
  fun _ hts => ⟨trivial, by simp [skipTo], fun _ ht => hts _ ((List.dropWhile_sublist _).mem ht)⟩

theorem keeps_complain (fault : SyntaxFault) : (complain fault).Keeps S fun _ => True := by
  intro ts hts
  refine ⟨trivial, ?_, hts⟩
  intro c hc t ht
  obtain rfl := List.mem_singleton.1 hc
  exact hts t (List.mem_of_mem_head? ht)

theorem keeps_expect (p : Token → Bool) (expected : Expectation) (absent : SyntaxFault) :
    (expect p expected absent).Keeps S fun t? => ∀ t ∈ t?, S t := by
  intro ts hts
  fun_cases expect p expected absent ts with
  | case1 => exact ⟨by simp, by simp, hts⟩
  | case2 t ts hp => exact ⟨by simpa using hts t List.mem_cons_self, by simp,
      fun u hu => hts u (List.mem_cons_of_mem _ hu)⟩
  | case3 t hp => exact ⟨by simp, by simpa using hts, hts⟩
  | case4 t hp u us hu =>
      simp only [List.mem_cons, forall_eq_or_imp] at hts
      exact ⟨by simpa using hts.2.1, by simpa using hts.1, hts.2.2⟩
  | case5 t hp u us hu => exact ⟨by simp, by simpa using hts t List.mem_cons_self, hts⟩

theorem keeps_name : name.Keeps S fun t? => ∀ t ∈ t?, S t :=
  keeps_expect _ _ _

theorem keeps_symbol (s : String) : (symbol s).Keeps S fun t? => ∀ t ∈ t?, S t :=
  keeps_expect _ _ _

/-! ### Repetition -/

/-- Repeating a reader. -/
theorem keeps_items {turn : Reader (Option α × Bool)}
    (hturn : turn.Keeps S fun o => ∀ a ∈ o.1, V a) :
    (items turn).Keeps S fun as => ∀ a ∈ as, V a := by
  intro ts hts
  fun_induction items turn ts with
  | case1 ts first hgo others ih =>
      have hfirst := hturn ts hts
      have hothers := ih hfirst.rest
      refine ⟨?_, ?_, hothers.rest⟩
      · intro a ha
        rcases List.mem_append.1 ha with ha | ha
        · exact hfirst.value a (by simpa using ha)
        · exact hothers.value a ha
      · intro c hc
        rcases List.mem_append.1 hc with hc | hc
        · exact hfirst.complaints c hc
        · exact hothers.complaints c hc
  | case2 ts first hend =>
      have hfirst := hturn ts hts
      exact ⟨fun a ha => hfirst.value a (by simpa using ha), hfirst.complaints, hfirst.rest⟩

/-! ### Names and types -/

theorem keeps_dotPart : dotPart.Keeps S fun o => ∀ pair ∈ o.1, S pair.1 ∧ ∀ t ∈ pair.2, S t := by
  refine .bind keeps_peek fun dot? hdot => ?_
  cases dot? with
  | none => exact .pure (by simp)
  | some dot =>
      refine .ite ?_ (.pure (by simp))
      refine .bind keeps_skip fun _ _ => .bind keeps_name fun part? hpart => .pure ?_
      rintro pair ⟨⟩
      exact ⟨hdot dot rfl, hpart⟩

theorem keeps_qualifiedName : qualifiedName.Keeps S fun q? => ∀ q ∈ q?, q.Within S := by
  refine .bind keeps_name fun first? hfirst => ?_
  cases first? with
  | none => exact .pure (by simp)
  | some first =>
      refine .bind (keeps_items keeps_dotPart) fun more hmore => .pure ?_
      rintro q ⟨⟩
      refine ⟨hfirst first rfl, ?_, ?_⟩
      · intro t ht
        obtain ⟨pair, hpair, hsome⟩ := List.mem_filterMap.1 ht
        exact (hmore pair hpair).2 t hsome
      · cases hlast : more.getLast? with
        | none => exact hfirst first rfl
        | some pair =>
            obtain ⟨dot, part?⟩ := pair
            have hpair := hmore _ (List.mem_of_mem_getLast? hlast)
            cases part? with
            | none => exact hpair.1
            | some part => exact hpair.2 part rfl

/-- A type without arguments. -/
theorem TypeRef.within_plain {token : Token} (h : S token) :
    ∀ r ∈ some (TypeRef.mk token [] token), r.Within S := by
  rintro r ⟨⟩
  exact .mk h (by simp) h

mutual

theorem within_typeRef (ts : List Token) (hts : ∀ t ∈ ts, S t) :
    (typeRef ts).Within S fun r? => ∀ r ∈ r?, r.Within S := by
  have hname := keeps_name ts hts
  rw [typeRef]
  split
  · next complaints rest heq =>
      rw [heq] at hname
      exact ⟨by simp, hname.complaints, hname.rest⟩
  · next token complaints rest heq =>
      rw [heq] at hname
      have htoken : S token := hname.value token rfl
      split
      · next bracket inner heq =>
          have hrest : S bracket ∧ ∀ t ∈ inner, S t := by simpa using hname.rest
          split
          · have hlt : inner.length < ts.length := by
              have hshorter := length_expect_lt (congrArg Reading.value heq)
              simp only [show expect _ _ _ ts = name ts from rfl, heq, List.length_cons] at hshorter
              omega
            have harguments := within_typeArguments hrest.1 inner hrest.2
            have hclose := keeps_symbol ">" _ harguments.rest
            refine ⟨?value, ?complaints, hclose.rest⟩
            case value =>
              rintro r ⟨⟩
              refine .mk htoken harguments.value.1 ?_
              cases hsymbol : (symbol ">" (typeArguments bracket inner).rest).value with
              | none => exact harguments.value.2
              | some close => exact hclose.value close hsymbol
            case complaints =>
              intro c hc
              rcases List.mem_append.1 hc with hc | hc
              · rcases List.mem_append.1 hc with hc | hc
                · exact hname.complaints c hc
                · exact harguments.complaints c hc
              · exact hclose.complaints c hc
          · exact ⟨TypeRef.within_plain htoken, hname.complaints, hname.rest⟩
      · exact ⟨TypeRef.within_plain htoken, hname.complaints, hname.rest⟩
termination_by (ts.length, 0)

theorem within_typeArguments {last : Token} (hlast : S last) (ts : List Token)
    (hts : ∀ t ∈ ts, S t) :
    (typeArguments last ts).Within S fun a => (∀ r ∈ a.1, r.Within S) ∧ S a.2 := by
  have hfirst := within_typeRef ts hts
  have hstop : S (((typeRef ts).value.map TypeRef.stop).getD last) := by
    cases hvalue : (typeRef ts).value with
    | none => exact hlast
    | some r =>
        cases hfirst.value r hvalue with
        | mk _ _ hstop => exact hstop
  have hsingle : ∀ r ∈ (typeRef ts).value.toList, r.Within S := by simpa using hfirst.value
  rw [typeArguments]
  simp only
  split
  · next comma more heq =>
      have hrest : S comma ∧ ∀ t ∈ more, S t := by simpa [heq] using hfirst.rest
      split
      · next hgo =>
          have hlt : more.length < ts.length := hgo.2
          have hothers := within_typeArguments hrest.1 more hrest.2
          refine ⟨⟨?value, hothers.value.2⟩, ?complaints, hothers.rest⟩
          case value =>
            intro r hr
            rcases List.mem_append.1 hr with hr | hr
            · exact hsingle r hr
            · exact hothers.value.1 r hr
          case complaints =>
            intro c hc
            rcases List.mem_append.1 hc with hc | hc
            · exact hfirst.complaints c hc
            · exact hothers.complaints c hc
      · exact ⟨⟨hsingle, hstop⟩, hfirst.complaints, heq ▸ hfirst.rest⟩
  · exact ⟨⟨hsingle, hstop⟩, hfirst.complaints, by simp⟩
termination_by (ts.length, 1)

end

theorem keeps_typeRef : Keeps S (fun r? => ∀ r ∈ r?, r.Within S) typeRef :=
  fun ts hts => within_typeRef ts hts

theorem keeps_annotation : annotation.Keeps S fun r? => ∀ r ∈ r?, r.Within S := by
  refine .bind (keeps_symbol ":") fun colon? _ => ?_
  cases colon? with
  | none => exact .pure (by simp)
  | some colon => exact keeps_typeRef

theorem keeps_binding : binding.Keeps S fun b? => ∀ b ∈ b?, b.Within S := by
  refine .bind keeps_name fun token? htoken => ?_
  cases token? with
  | none => exact .pure (by simp)
  | some token =>
      refine .bind keeps_annotation fun type? htype => .pure ?_
      rintro b ⟨⟩
      exact ⟨htoken token rfl, htype⟩

/-! ### Structures -/

theorem keeps_fieldsEnd : fieldsEnd.Keeps S fun _ => True :=
  fun _ hts => ⟨trivial, by simp [fieldsEnd], hts⟩

theorem keeps_field : field.Keeps S fun o => ∀ b ∈ o.1, b.Within S := by
  refine .bind keeps_fieldsEnd fun _ _ => .ite (.pure (by simp)) ?_
  refine .bind keeps_binding fun b? hb => ?_
  refine .bind (keeps_skipIf _) fun _ _ => .ite (.pure hb) ?_
  refine .bind keeps_fieldsEnd fun _ _ => .ite (.pure hb) ?_
  have hskip : (do
      skipTo fun t => t.isSymbol "," || t.isSymbol "\x7d" || t.opensItem
      let _ ← skipIf (·.isSymbol ",")
      Pure.pure (b?, true) : Reader (Option Binding × Bool)).Keeps S
        fun o => ∀ b ∈ o.1, b.Within S :=
    .bind (keeps_skipTo _) fun _ _ => .bind (keeps_skipIf _) fun _ _ => .pure hb
  exact .ite (.bind (keeps_complain _) fun _ _ => hskip) hskip

theorem keeps_giveUp {V : α → Prop} :
    (giveUp : Reader (Option α)).Keeps S fun a? => ∀ a ∈ a?, V a :=
  .bind (keeps_skipTo _) fun _ _ => .pure (by simp)

theorem keeps_struct {keyword : Token} (hkeyword : S keyword) :
    (struct keyword).Keeps S fun d? => ∀ d ∈ d?, d.Within S := by
  refine .bind keeps_name fun name? hname => ?_
  cases name? with
  | none => exact keeps_giveUp
  | some name =>
      refine .bind (keeps_symbol _) fun brace? _ => ?_
      cases brace? with
      | none => exact keeps_giveUp
      | some brace =>
          refine .bind (keeps_items keeps_field) fun fields hfields => ?_
          refine .bind (keeps_symbol _) fun _ _ => .bind (keeps_skipIf _) fun _ _ => .pure ?_
          rintro d ⟨⟩
          exact ⟨hkeyword, hname name rfl, hfields⟩

/-! ### Functions -/

theorem keeps_param : param.Keeps S fun o => ∀ b ∈ o.1, b.Within S := by
  refine .bind keeps_binding fun b? hb => ?_
  cases b? with
  | none => exact .pure (by simp)
  | some b => exact .bind (keeps_skipIf _) fun _ _ => .pure hb

theorem keeps_params : params.Keeps S fun bs => ∀ b ∈ bs, b.Within S :=
  .bind (keeps_next _) fun _ _ => .ite (.pure (by simp)) (keeps_items keeps_param)

theorem keeps_run (p : Token → Bool) : (run p).Keeps S fun ts => ∀ t ∈ ts, S t := by
  intro ts hts
  have hcut := cut_append p 0 ts
  refine ⟨fun t ht => hts t ?_, by simp [run], fun t ht => hts t ?_⟩
  · rw [← hcut]
    exact List.mem_append_left _ ht
  · rw [← hcut]
    exact List.mem_append_right _ ht

/-- The tokens of a body and the last token of its function satisfy `S`. -/
def BodyWithin (S : Token → Prop) (body : List Token × Token) : Prop :=
  (∀ t ∈ body.1, S t) ∧ S body.2

theorem keeps_block : block.Keeps S fun b? => ∀ b ∈ b?, BodyWithin S b := by
  refine .bind (keeps_run _) fun body hbody => .bind keeps_peek fun close? hclose => ?_
  cases close? with
  | none => exact .bind (keeps_complain _) fun _ _ => .pure (by simp)
  | some close =>
      refine .bind keeps_skip fun _ _ => .pure ?_
      rintro b ⟨⟩
      exact ⟨hbody, hclose close rfl⟩

theorem keeps_expression : expression.Keeps S fun b? => ∀ b ∈ b?, BodyWithin S b := by
  refine .bind (keeps_run _) fun body hbody => ?_
  cases hlast : body.getLast? with
  | none =>
      exact .bind (keeps_complain _) fun _ _ => .bind (keeps_skipIf _) fun _ _ => .pure (by simp)
  | some last =>
      have hunclosed : ∀ b ∈ some (body, last), BodyWithin S b := by
        rintro b ⟨⟩
        exact ⟨hbody, hbody last (List.mem_of_mem_getLast? hlast)⟩
      refine .bind keeps_peek fun stop? hstop => ?_
      cases stop? with
      | none => exact .bind (keeps_complain _) fun _ _ => .pure hunclosed
      | some stop =>
          refine .ite (.bind keeps_skip fun _ _ => .pure ?_)
            (.bind (keeps_complain _) fun _ _ => .pure hunclosed)
          rintro b ⟨⟩
          exact ⟨hbody, hstop stop rfl⟩

theorem keeps_functionBody : functionBody.Keeps S fun b => ∀ body ∈ b.2, BodyWithin S body :=
  .bind (keeps_skipIf _) fun _ _ => .ite
    (.bind keeps_block fun _ hbody => .bind (keeps_skipIf _) fun _ _ => .pure hbody)
    (.bind keeps_expression fun _ hbody => .pure hbody)

theorem keeps_returnType : returnType.Keeps S fun r? => ∀ r ∈ r?, r.Within S :=
  .bind (keeps_skipIf _) fun _ _ => .ite keeps_typeRef (.pure (by simp))

theorem keeps_function {keyword : Token} (hkeyword : S keyword) :
    (function keyword).Keeps S fun d? => ∀ d ∈ d?, d.Within S := by
  refine .bind keeps_name fun name? hname => ?_
  cases name? with
  | none => exact keeps_giveUp
  | some name =>
      refine .bind (keeps_symbol _) fun opening? _ => ?_
      cases opening? with
      | none => exact keeps_giveUp
      | some opening =>
          refine .bind keeps_params fun params hparams => ?_
          refine .bind (keeps_symbol _) fun closing? _ => ?_
          cases closing? with
          | none => exact keeps_giveUp
          | some closing =>
              refine .bind keeps_returnType fun returns? hreturns => ?_
              refine .bind (keeps_symbol _) fun arrow? _ => ?_
              cases arrow? with
              | none => exact keeps_giveUp
              | some arrow =>
                  refine .bind keeps_functionBody fun body hbody => ?_
                  obtain ⟨block, _ | ⟨tokens, stop⟩⟩ := body
                  · exact .pure (by simp)
                  · have hwithin := hbody (tokens, stop) rfl
                    refine .pure ?_
                    rintro d ⟨⟩
                    exact ⟨hkeyword, hname name rfl, hparams, hreturns, hwithin.1, hwithin.2⟩

/-! ### Files -/

theorem keeps_useClause {keyword : Token} (hkeyword : S keyword) :
    (useClause keyword).Keeps S fun c? => ∀ c ∈ c?, c.Within S := by
  refine .bind keeps_qualifiedName fun name? hname => ?_
  cases name? with
  | none => exact keeps_giveUp
  | some name =>
      refine .bind (keeps_skipIf _) fun _ _ => .pure ?_
      rintro c ⟨⟩
      exact ⟨hkeyword, hname name rfl⟩

theorem keeps_packageClause : packageClause.Keeps S fun q? => ∀ q ∈ q?, q.Within S :=
  .bind (keeps_skipIf _) fun _ _ => .ite
    (.bind keeps_qualifiedName fun _ hname => .bind (keeps_skipIf _) fun _ _ => .pure hname)
    (.bind (keeps_complain _) fun _ _ => .pure (by simp))

/-- All tokens of a top-level item satisfy `S`. -/
def ItemWithin (S : Token → Prop) : UseClause ⊕ Declaration → Prop
  | .inl c => c.Within S
  | .inr d => d.Within S

theorem keeps_item : item.Keeps S fun o => ∀ i ∈ o.1, ItemWithin S i := by
  refine .bind keeps_peek fun t? ht => ?_
  cases t? with
  | none => exact .pure (by simp)
  | some t =>
      have hkeyword : S t := ht t rfl
      refine .ite ?use (.ite ?struct (.ite ?function ?other))
      case use =>
        refine .bind keeps_skip fun _ _ => .bind (keeps_useClause hkeyword) fun c? hc => .pure ?_
        rintro i hi
        obtain ⟨c, hc?, rfl⟩ := Option.map_eq_some_iff.1 hi
        exact hc c hc?
      case struct =>
        refine .bind keeps_skip fun _ _ => .bind (keeps_struct hkeyword) fun d? hd => .pure ?_
        rintro i hi
        obtain ⟨d, hd?, rfl⟩ := Option.map_eq_some_iff.1 hi
        exact hd d hd?
      case function =>
        refine .bind keeps_skip fun _ _ => .bind (keeps_function hkeyword) fun d? hd => .pure ?_
        rintro i hi
        obtain ⟨d, hd?, rfl⟩ := Option.map_eq_some_iff.1 hi
        exact hd d hd?
      case other =>
        exact .bind (keeps_complain _) fun _ _ => .bind keeps_skip fun _ _ =>
          .bind (keeps_skipTo _) fun _ _ => .pure (by simp)

/-- A file is read from its tokens: they make up the tree, and the complaints are about them. -/
theorem keeps_tree : tree.Keeps S fun t => t.Within S := by
  refine .bind keeps_packageClause fun package? hpackage => ?_
  refine .bind (keeps_items keeps_item) fun items hitems => .pure ?_
  refine ⟨hpackage, ?_, ?_⟩
  · intro c hc
    obtain ⟨i, hi, hleft⟩ := List.mem_filterMap.1 hc
    obtain rfl := Sum.getLeft?_eq_some_iff.1 hleft
    exact hitems _ hi
  · intro d hd
    obtain ⟨i, hi, hright⟩ := List.mem_filterMap.1 hd
    obtain rfl := Sum.getRight?_eq_some_iff.1 hright
    exact hitems _ hi

end Reader

end Npl
