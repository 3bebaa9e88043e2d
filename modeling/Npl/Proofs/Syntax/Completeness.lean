import Npl.Proofs.Syntax.Reading
import Npl.Proofs.Syntax.Unambiguous

/-!
# What follows the grammar is read without complaint

Rule by rule: the tokens of a derivation are taken without complaint, with the value that the
derivation declares, and what follows them stays. As for the uniqueness of derivations, what follows
must not start with a token that goes on with the rule. An item goes on with little: a semicolon that
was left out, and a dot behind a name that no semicolon ends.

## Main definitions

* `Grammar.Item.goesOn`, `Grammar.File.goesOn` — the tokens that an item or a file goes on with.

## Main results

* `Grammar.takes_name`, `Grammar.takes_type`, … — one statement for each rule.
* `Grammar.tree_append` — a file is read first, whatever follows it that it does not go on with.
* `Grammar.takes_file` — a file with a derivation is read without complaint.
-/

namespace Npl.Grammar

open Reader

/-! ### Terminals -/

/-- The next token is seen. -/
theorem takes_peek (ts : List Token) : Takes peek ts ts.head? ts :=
  takes_peek_iff.2 ⟨rfl, rfl⟩

/-- The next token is skipped. -/
theorem takes_skip (t : Token) (ts : List Token) : Takes skip (t :: ts) () ts :=
  takes_skip_iff.2 rfl

/-- A name is taken. -/
theorem takes_ident (i : Ident) (rest : List Token) : Takes name (i.1 :: rest) (some i.1) rest :=
  takes_name_iff.2 ⟨i.1, i.2, rfl, rfl⟩

/-- A symbol is taken. -/
theorem takes_sym {s : String} (mark : Sym s) (rest : List Token) :
    Takes (symbol s) (mark.1 :: rest) (some mark.1) rest :=
  takes_symbol_iff.2 ⟨mark.1, mark.2, rfl, rfl⟩

/-- A token that is looked for is taken. -/
theorem takes_skipIf {p : Token → Bool} (t : Terminal p) (rest : List Token) :
    Takes (skipIf p) (t.1 :: rest) true rest :=
  takes_skipIf_iff.2 (.inl ⟨rfl, t.1, t.2, rfl⟩)

/-- A token that is looked for and not there is not taken. -/
theorem takes_skipIf_of_stops {p : Token → Bool} {rest : List Token} (h : Stops p rest) :
    Takes (skipIf p) rest false rest :=
  takes_skipIf_iff.2 (.inr ⟨rfl, h, rfl⟩)

/-- The token would be taken for the one that was left out. -/
def fills {p : Token → Bool} (o : Option (Terminal p)) (t : Token) : Bool :=
  o.isNone && p t

/-- A token that may be left out is taken if it is there. -/
theorem takes_optional {p : Token → Bool} (o : Option (Terminal p)) {rest : List Token}
    (h : Stops (fills o) rest) : Takes (skipIf p) (optional o ++ rest) o.isSome rest := by
  cases o with
  | none => exact takes_skipIf_of_stops h
  | some t => exact takes_skipIf t rest

/-! ### Names -/

/-- The dots and names behind the first part of a dotted name are taken. -/
theorem takes_dotted (n : Name) {rest : List Token} (h : Stops (·.isSymbol ".") rest) :
    ∃ ts ps, n.tokens ++ rest = n.first.1 :: ts ∧ Takes dotted ts ps rest ∧
      ps.filterMap Prod.snd = n.more.map Subtype.val ∧
      (ps.getLast?.map fun (dot, part) => part.getD dot).getD n.first.1 = n.last.1 := by
  induction n with
  | one i =>
      refine ⟨rest, [], rfl, ?_, rfl, rfl⟩
      refine takes_items_of_end (o := none) ?_
      refine (takes_peek _).bind ?_
      cases rest with
      | nil => exact takes_pure_iff.2 ⟨rfl, rfl⟩
      | cons t rest =>
          have ht : t.isSymbol "." = false := stops_cons.1 h
          simp [ht]
  | cons i dot n ih =>
      obtain ⟨ts, ps, htokens, hdotted, hmore, hlast⟩ := ih
      have hturn : Takes dotPart (dot.1 :: n.first.1 :: ts) (some (dot.1, some n.first.1), true)
          ts := by
        refine (takes_peek _).bind ?_
        simp only [List.head?_cons, dot.2, if_true]
        refine (takes_skip _ _).bind ?_
        exact (takes_ident n.first ts).bind (takes_pure_iff.2 ⟨rfl, rfl⟩)
      refine ⟨dot.1 :: n.first.1 :: ts, (dot.1, some n.first.1) :: ps, ?_, ?_, ?_, ?_⟩
      · rw [← htokens]
        rfl
      · refine takes_items_of_go hturn ?_ hdotted
        simp only [List.length_cons]
        omega
      · simp [hmore, Separated.more]
      · rw [Separated.last, ← hlast, List.getLast?_cons]
        cases ps.getLast? <;> rfl

/-- A dotted name is taken. -/
theorem takes_name (n : Name) {rest : List Token} (h : Stops (·.isSymbol ".") rest) :
    Takes qualifiedName (n.tokens ++ rest) (some n.tree) rest := by
  obtain ⟨ts, ps, htokens, hdotted, hmore, hlast⟩ := takes_dotted n h
  rw [htokens]
  refine (takes_ident n.first ts).bind (hdotted.bind (takes_pure_iff.2 ⟨?_, rfl⟩))
  rw [hmore, hlast]
  rfl

/-! ### Types -/

mutual

/-- A type is taken. -/
theorem takes_type : ∀ (t : TypeUse) {rest : List Token}, Stops (·.isSymbol "<") rest →
    Takes typeRef (t.tokens ++ rest) (some t.tree) rest
  | .plain i, rest, h =>
      takes_typeRef_iff.2 ⟨i.1, rest, i.2, rfl, .inl ⟨h, rfl, rfl⟩⟩
  | .generic i opening as closing, rest, _ => by
      obtain ⟨stop, harguments⟩ := takes_types as opening.1
        (stops_sym closing rest (by decide)) (stops_sym closing rest (by decide))
      refine takes_typeRef_iff.2 ⟨i.1, _, i.2, by simp [TypeUse.tokens], .inr ⟨opening.1, _, _, stop,
        closing.1, opening.2, rfl, harguments, closing.2, rfl⟩⟩

/-- Types with commas between them are taken. -/
theorem takes_types : ∀ (t : TypeUses) (last : Token) {rest : List Token},
    Stops (·.isSymbol ",") rest → Stops (·.isSymbol "<") rest →
      ∃ stop, Takes (typeArguments last) (t.tokens ++ rest) (t.trees, stop) rest
  | .one type, last, rest, hcomma, h => by
      refine ⟨_, takes_typeArguments_iff.2 ⟨_, _, takes_type type h, .inr ⟨?_, rfl, rfl, rfl⟩⟩⟩
      rintro comma more rfl hmark
      have hfalse := stops_cons.1 hcomma
      rw [hmark] at hfalse
      exact Bool.noConfusion hfalse
  | .cons type comma others, last, rest, hcomma, h => by
      obtain ⟨stop, hothers⟩ := takes_types others comma.1 hcomma h
      have hfirst := takes_type type (stops_sym comma (others.tokens ++ rest) (by decide))
      have hlt : (others.tokens ++ rest).length <
          (type.tokens ++ comma.1 :: (others.tokens ++ rest)).length := by
        simp only [List.length_append, List.length_cons]
        omega
      refine ⟨stop, ?_⟩
      rw [TypeUses.tokens, List.append_assoc, List.cons_append]
      exact takes_typeArguments_iff.2 ⟨_, _, hfirst, .inl ⟨comma.1, _, _, comma.2, rfl, hlt,
        hothers, rfl⟩⟩

end

/-! ### Fields and parameters -/

/-- A field or parameter is taken. -/
theorem takes_field (f : Field) {rest : List Token} (h : Stops (·.isSymbol "<") rest) :
    Takes binding (f.tokens ++ rest) (some f.tree) rest := by
  have htype : Takes annotation (f.colon.1 :: (f.type.tokens ++ rest)) (some f.type.tree) rest :=
    (takes_sym f.colon _).bind (takes_type f.type h)
  exact (takes_ident f.name _).bind (htype.bind (takes_pure_iff.2 ⟨rfl, rfl⟩))

/-- Where a name comes next, the fields of a structure do not end. -/
theorem takes_fieldsEnd_ident (i : Ident) (ts : List Token) :
    Takes fieldsEnd (i.1 :: ts) false (i.1 :: ts) := by
  simp [Takes, fieldsEnd, Token.isSymbol_eq_false_of_isIdentifier i.2,
    Token.opensItem_eq_false_of_isIdentifier i.2]

/-- Where a closing brace comes next, the fields of a structure end. -/
theorem takes_fieldsEnd_closing (c : Sym "\x7d") (ts : List Token) :
    Takes fieldsEnd (c.1 :: ts) true (c.1 :: ts) := by
  simp [Takes, fieldsEnd, c.2]

/-- A turn over the fields of a structure takes a field and the comma behind it. -/
theorem takes_turn_comma (f : Field) (comma : Sym ",") (ts : List Token) :
    Takes field (f.tokens ++ comma.1 :: ts) (some f.tree, true) ts := by
  refine (takes_fieldsEnd_ident f.name _).bind ?_
  refine (takes_field f (stops_sym comma ts (by decide))).bind ?_
  exact (takes_skipIf comma ts).bind (takes_pure_iff.2 ⟨rfl, rfl⟩)

/-- A turn over the fields of a structure takes the last one. -/
theorem takes_turn_closing (f : Field) (c : Sym "\x7d") (ts : List Token) :
    Takes field (f.tokens ++ c.1 :: ts) (some f.tree, false) (c.1 :: ts) := by
  refine (takes_fieldsEnd_ident f.name _).bind ?_
  refine (takes_field f (stops_sym c ts (by decide))).bind ?_
  refine (takes_skipIf_of_stops (stops_sym c ts (by decide))).bind ?_
  exact (takes_fieldsEnd_closing c ts).bind (takes_pure_iff.2 ⟨rfl, rfl⟩)

/-- At the closing brace the turns over the fields of a structure end. -/
theorem takes_fields_end (c : Sym "\x7d") (ts : List Token) :
    Takes (items field) (c.1 :: ts) [] (c.1 :: ts) :=
  takes_items_of_end (o := none)
    ((takes_fieldsEnd_closing c ts).bind (takes_pure_iff.2 ⟨rfl, rfl⟩))

/-- A turn that takes something leaves fewer tokens. -/
theorem length_lt_field (f : Field) (comma : Sym ",") (ts : List Token) :
    ts.length < (f.tokens ++ comma.1 :: ts).length := by
  simp only [List.length_append, List.length_cons]
  omega

/-- Fields with commas between them, and perhaps one behind the last, are taken. -/
theorem takes_separated_trailing (fs : Separated "," Field) (o : Option (Sym ",")) (c : Sym "\x7d")
    (ts : List Token) :
    Takes (items field) (fs.tokens Field.tokens ++ (optional o ++ c.1 :: ts))
      (fs.members.map Field.tree) (c.1 :: ts) := by
  induction fs with
  | one f =>
      cases o with
      | none => exact takes_items_of_end (takes_turn_closing f c ts)
      | some comma =>
          exact takes_items_of_go (takes_turn_comma f comma _) (length_lt_field f comma _)
            (takes_fields_end c ts)
  | cons f comma fs ih =>
      rw [Separated.tokens, List.append_assoc, List.cons_append]
      exact takes_items_of_go (takes_turn_comma f comma _) (length_lt_field f comma _) ih

/-- The fields of a structure are taken. -/
theorem takes_fields (fs : Fields) (c : Sym "\x7d") (ts : List Token) :
    Takes (items field) (fs.tokens ++ c.1 :: ts) fs.trees (c.1 :: ts) := by
  cases fs with
  | none => exact takes_fields_end c ts
  | some fs =>
      rw [Fields.tokens, List.append_assoc]
      exact takes_separated_trailing fs.1 fs.2 c ts

/-- One parameter and the others behind it are taken. -/
theorem takes_separated (fs : Separated "," Field) (c : Sym ")") (ts : List Token) :
    Takes (items param) (fs.tokens Field.tokens ++ c.1 :: ts) (fs.members.map Field.tree)
      (c.1 :: ts) := by
  induction fs with
  | one f =>
      refine takes_items_of_end (o := some f.tree) ?_
      refine (takes_field f (stops_sym c ts (by decide))).bind ?_
      exact (takes_skipIf_of_stops (stops_sym c ts (by decide))).bind
        (takes_pure_iff.2 ⟨rfl, rfl⟩)
  | cons f comma fs ih =>
      rw [Separated.tokens, List.append_assoc, List.cons_append]
      refine takes_items_of_go (o := some f.tree) ?_ (length_lt_field f comma _) ih
      refine (takes_field f (stops_sym comma _ (by decide))).bind ?_
      exact (takes_skipIf comma _).bind (takes_pure_iff.2 ⟨rfl, rfl⟩)

/-- The parameters of a function are taken. -/
theorem takes_params (ps : Params) (c : Sym ")") (ts : List Token) :
    Takes params (ps.tokens ++ c.1 :: ts) ps.trees (c.1 :: ts) := by
  cases ps with
  | none =>
      have hnext : Takes (next (·.isSymbol ")")) (c.1 :: ts) true (c.1 :: ts) :=
        takes_next_iff.2 ⟨by simp [c.2], rfl⟩
      exact hnext.bind (takes_pure_iff.2 ⟨rfl, rfl⟩)
  | some fs =>
      obtain ⟨i, us, hi⟩ := exists_ident_of_fields fs
      have hname : i.1.isSymbol ")" = false := Token.isSymbol_eq_false_of_isIdentifier i.2
      have hnext : Takes (next (·.isSymbol ")")) (fs.tokens Field.tokens ++ c.1 :: ts) false
          (fs.tokens Field.tokens ++ c.1 :: ts) :=
        takes_next_iff.2 ⟨by simp [hi, hname], rfl⟩
      exact hnext.bind (takes_separated fs c ts)

/-! ### What an item goes on with -/

/-- Whether a dotted name with a semicolon behind it, which may be left out, goes on with the token. -/
def clauseGoesOn (semicolon : Option (Sym ";")) (t : Token) : Bool :=
  semicolon.isNone && (t.isSymbol "." || t.isSymbol ";")

/-- Whether a body goes on with the token. -/
def Body.goesOn : Body → Token → Bool
  | block _ _ _ _ semicolon => fills semicolon
  | expression .. => fun _ => false

/-- Whether an item goes on with the token: directly behind the item it would be a part of it. -/
def Item.goesOn : Item → Token → Bool
  | use u => clauseGoesOn u.semicolon
  | struct d => fills d.semicolon
  | function d => d.body.goesOn

/-- Whether a file goes on with the token, which is up to its last item. -/
def File.goesOn (f : File) : Token → Bool :=
  match f.items.getLast? with
  | none => clauseGoesOn f.semicolon
  | some i => i.goesOn

theorem isSymbol_of_clauseGoesOn {semicolon : Option (Sym ";")} {t : Token}
    (h : clauseGoesOn semicolon t = true) : t.isSymbol "." = true ∨ t.isSymbol ";" = true := by
  simp only [clauseGoesOn, Bool.and_eq_true, Bool.or_eq_true] at h
  exact h.2

/-- An item goes on with dots and semicolons only. -/
theorem Item.isSymbol_of_goesOn {i : Item} {t : Token} (h : i.goesOn t = true) :
    t.isSymbol "." = true ∨ t.isSymbol ";" = true := by
  cases i with
  | use u => exact isSymbol_of_clauseGoesOn h
  | struct d =>
      simp only [goesOn, fills, Bool.and_eq_true] at h
      exact .inr h.2
  | function d =>
      cases hbody : d.body with
      | block _ _ _ _ semicolon =>
          simp only [goesOn, hbody, Body.goesOn, fills, Bool.and_eq_true] at h
          exact .inr h.2
      | expression => simp [goesOn, hbody, Body.goesOn] at h

/-- A file goes on with dots and semicolons only. -/
theorem File.isSymbol_of_goesOn {f : File} {t : Token} (h : f.goesOn t = true) :
    t.isSymbol "." = true ∨ t.isSymbol ";" = true := by
  rw [goesOn] at h
  cases hlast : f.items.getLast? with
  | none =>
      rw [hlast] at h
      exact isSymbol_of_clauseGoesOn h
  | some i =>
      rw [hlast] at h
      exact Item.isSymbol_of_goesOn h

/-- What opens an item is no part of the item before it. -/
theorem Item.stops_of_opensItem (i : Item) {rest : List Token}
    (h : Stops (fun t => !t.opensItem) rest) : Stops i.goesOn rest := by
  cases rest with
  | nil => rfl
  | cons t rest =>
      have ht : t.opensItem = true := by simpa using h
      refine stops_cons.2 (Bool.eq_false_iff.2 fun hgoes => ?_)
      rcases isSymbol_of_goesOn hgoes with hsymbol | hsymbol
      · simp [Token.isSymbol_eq_false_of_opensItem ht] at hsymbol
      · simp [Token.isSymbol_eq_false_of_opensItem ht] at hsymbol

/-- What a name with a semicolon behind it does not go on with follows both. -/
theorem stops_clause {semicolon : Option (Sym ";")} {rest : List Token}
    (h : Stops (clauseGoesOn semicolon) rest) :
    Stops (·.isSymbol ".") (optional semicolon ++ rest) ∧ Stops (fills semicolon) rest := by
  cases semicolon with
  | some mark =>
      refine ⟨stops_sym mark rest (by decide), ?_⟩
      cases rest <;> simp [fills]
  | none =>
      cases rest with
      | nil => exact ⟨rfl, rfl⟩
      | cons t rest =>
          have ht : t.isSymbol "." = false ∧ t.isSymbol ";" = false := by
            simpa [clauseGoesOn] using h
          exact ⟨stops_cons.2 ht.1, stops_cons.2 (by simp [fills, ht.2])⟩

/-! ### Structures -/

/-- A structure behind its keyword is taken. -/
theorem takes_struct (d : Struct) {rest : List Token} (h : Stops (fills d.semicolon) rest) :
    ∃ ts, d.tokens ++ rest = d.keyword.1 :: ts ∧
      Takes (Reader.struct d.keyword.1) ts (some d.tree) rest := by
  refine ⟨_, rfl, ?_⟩
  simp only [List.append_eq, List.cons_append, List.append_assoc]
  refine (takes_ident d.name _).bind ((takes_sym d.opening _).bind ?_)
  refine (takes_fields d.fields d.closing _).bind ((takes_sym d.closing _).bind ?_)
  exact (takes_optional d.semicolon h).bind (takes_pure_iff.2 ⟨rfl, rfl⟩)

/-! ### Functions -/

/-- An enclosed run of tokens is cut in front of what ends it. -/
theorem takes_run {p : Token → Bool} {inside : List Token} (henclosed : Encloses p inside)
    {t : Token} (ht : p t = true) (rest : List Token) :
    Takes (run p) (inside ++ t :: rest) inside (t :: rest) :=
  takes_run_iff.2 (cut_eq henclosed.unmet henclosed.balanced ht)

/-- A block behind its opening brace is taken. -/
theorem takes_block {inside : List Token} (henclosed : Encloses endsBlock inside)
    (closing : Sym "\x7d") (rest : List Token) :
    Takes block (inside ++ closing.1 :: rest) (some (inside, closing.1)) rest := by
  refine (takes_run henclosed closing.2 rest).bind ((takes_peek _).bind ?_)
  exact (takes_skip _ _).bind (takes_pure_iff.2 ⟨rfl, rfl⟩)

/-- An expression and the semicolon behind it are taken. -/
theorem takes_expression {inside : List Token} (henclosed : Encloses endsExpression inside)
    (hne : inside ≠ []) (semicolon : Sym ";") (rest : List Token) :
    Takes expression (inside ++ semicolon.1 :: rest) (some (inside, semicolon.1)) rest := by
  have hends : endsExpression semicolon.1 = true := by simp [endsExpression, semicolon.2]
  refine (takes_run henclosed hends rest).bind ?_
  rw [List.getLast?_eq_some_getLast hne]
  refine (takes_peek _).bind ?_
  simp only [List.head?_cons, semicolon.2, if_true]
  exact (takes_skip _ _).bind (takes_pure_iff.2 ⟨rfl, rfl⟩)

/-- The body of a function is taken. -/
theorem takes_body (d : Body) {rest : List Token} (h : Stops d.goesOn rest) :
    Takes functionBody (d.tokens ++ rest) (d.isBlock, some (d.kept, d.stop)) rest := by
  cases d with
  | block opening inside henclosed closing semicolon =>
      simp only [Body.tokens, List.cons_append, List.append_assoc]
      refine (takes_skipIf opening _).bind ((takes_block henclosed closing _).bind ?_)
      exact (takes_optional semicolon h).bind (takes_pure_iff.2 ⟨rfl, rfl⟩)
  | expression inside henclosed hne hunbraced semicolon =>
      have hstops : Stops (·.isSymbol "\x7b") (inside ++ semicolon.1 :: rest) := by
        cases inside with
        | nil => exact absurd rfl hne
        | cons t inside => exact hunbraced
      simp only [Body.tokens, List.append_assoc, List.singleton_append]
      refine (takes_skipIf_of_stops hstops).bind ?_
      exact (takes_expression henclosed hne semicolon rest).bind (takes_pure_iff.2 ⟨rfl, rfl⟩)

/-- The declared result of a function is taken. -/
theorem takes_result (r : Result) (arrow : Sym "->") (ts : List Token) :
    Takes returnType (r.tokens ++ arrow.1 :: ts) r.tree? (arrow.1 :: ts) := by
  cases r with
  | none =>
      have hstops : Stops (·.isKeyword "returns") (arrow.1 :: ts) :=
        stops_cons.2 (Token.isKeyword_eq_false_of_isSymbol arrow.2)
      exact (takes_skipIf_of_stops hstops).bind (takes_pure_iff.2 ⟨rfl, rfl⟩)
  | some r =>
      exact (takes_skipIf r.1 _).bind (takes_type r.2 (stops_sym arrow ts (by decide)))

/-- A function behind its keyword is taken. -/
theorem takes_function (d : Function) {rest : List Token} (h : Stops d.body.goesOn rest) :
    ∃ ts, d.tokens ++ rest = d.keyword.1 :: ts ∧
      Takes (Reader.function d.keyword.1) ts (some d.tree) rest := by
  refine ⟨_, rfl, ?_⟩
  simp only [List.append_eq, List.cons_append, List.append_assoc]
  refine (takes_ident d.name _).bind ((takes_sym d.opening _).bind ?_)
  refine (takes_params d.params d.closing _).bind ((takes_sym d.closing _).bind ?_)
  refine (takes_result d.result d.arrow _).bind ((takes_sym d.arrow _).bind ?_)
  exact (takes_body d.body h).bind (takes_pure_iff.2 ⟨rfl, rfl⟩)

/-! ### Files -/

/-- A use clause behind its keyword is taken. -/
theorem takes_use (u : Use) {rest : List Token} (h : Stops (clauseGoesOn u.semicolon) rest) :
    ∃ ts, u.tokens ++ rest = u.keyword.1 :: ts ∧
      Takes (useClause u.keyword.1) ts (some u.tree) rest := by
  refine ⟨_, rfl, ?_⟩
  simp only [List.append_eq, List.append_assoc]
  refine (takes_name u.name (stops_clause h).1).bind ?_
  exact (takes_optional u.semicolon (stops_clause h).2).bind (takes_pure_iff.2 ⟨rfl, rfl⟩)

/-- An item is taken. -/
theorem takes_item (i : Item) {rest : List Token} (h : Stops i.goesOn rest) :
    Takes item (i.tokens ++ rest) (some i.tree, true) rest := by
  cases i with
  | use u =>
      obtain ⟨ts, htokens, htakes⟩ := takes_use u h
      rw [Item.tokens, htokens]
      refine (takes_peek _).bind ?_
      simp only [List.head?_cons, u.keyword.2, if_true]
      exact (takes_skip _ _).bind (htakes.bind (takes_pure_iff.2 ⟨rfl, rfl⟩))
  | struct d =>
      obtain ⟨ts, htokens, htakes⟩ := takes_struct d h
      have huse := Token.isKeyword_eq_false_of_ne d.keyword.2 (u := "use") (by decide)
      rw [Item.tokens, htokens]
      refine (takes_peek _).bind ?_
      simp only [List.head?_cons, huse, d.keyword.2, if_true]
      exact (takes_skip _ _).bind (htakes.bind (takes_pure_iff.2 ⟨rfl, rfl⟩))
  | function d =>
      obtain ⟨ts, htokens, htakes⟩ := takes_function d h
      have huse := Token.isKeyword_eq_false_of_ne d.keyword.2 (u := "use") (by decide)
      have hstruct := Token.isKeyword_eq_false_of_ne d.keyword.2 (u := "struct") (by decide)
      rw [Item.tokens, htokens]
      refine (takes_peek _).bind ?_
      simp only [List.head?_cons, huse, hstruct, d.keyword.2, if_true]
      exact (takes_skip _ _).bind (htakes.bind (takes_pure_iff.2 ⟨rfl, rfl⟩))

/-- Items are read first, whatever follows them that the last one does not go on with. -/
theorem items_append (is : List Item) {rest : List Token}
    (h : ∀ i ∈ is.getLast?, Stops i.goesOn rest) :
    items item (is.flatMap Item.tokens ++ rest) = ⟨is.map Item.tree ++ (items item rest).value,
      (items item rest).complaints, (items item rest).rest⟩ := by
  induction is with
  | nil => rfl
  | cons i is ih =>
      have hitem : Stops i.goesOn (is.flatMap Item.tokens ++ rest) := by
        cases is with
        | nil => exact h i rfl
        | cons j is =>
            refine i.stops_of_opensItem ?_
            obtain ⟨t, ts, hj, ht⟩ := j.exists_opensItem
            simp [hj, ht]
      have hbehind : ∀ j ∈ is.getLast?, Stops j.goesOn rest := by
        cases is with
        | nil => simp
        | cons j is => exact h
      obtain ⟨t, ts, hi, -⟩ := i.exists_opensItem
      have hlt : (is.flatMap Item.tokens ++ rest).length <
          (i.tokens ++ (is.flatMap Item.tokens ++ rest)).length := by
        simp only [hi, List.cons_append, List.length_cons, List.length_append]
        omega
      rw [List.flatMap_cons, List.append_assoc, items_of_go (takes_item i hitem) hlt, ih hbehind]
      rfl

/-- At the end of the file there are no items. -/
theorem takes_items_nil : Takes (items item) [] [] [] :=
  takes_items_of_end (o := none) ((takes_peek []).bind (takes_pure_iff.2 ⟨rfl, rfl⟩))

/-- The items of a file are taken up to its end. -/
theorem takes_items (is : List Item) :
    Takes (items item) (is.flatMap Item.tokens) (is.map Item.tree) [] := by
  have hread := items_append is (by simp : ∀ i ∈ is.getLast?, Stops i.goesOn [])
  rwa [List.append_nil, takes_items_nil, List.append_nil] at hread

/-- A package clause is taken. -/
theorem takes_packageClause (f : File) {rest : List Token}
    (h : Stops (clauseGoesOn f.semicolon) rest) :
    Takes packageClause (f.keyword.1 :: (f.name.tokens ++ (optional f.semicolon ++ rest)))
      (some f.name.tree) rest := by
  refine (takes_skipIf f.keyword _).bind ?_
  refine (takes_name f.name (stops_clause h).1).bind ?_
  exact (takes_optional f.semicolon (stops_clause h).2).bind (takes_pure_iff.2 ⟨rfl, rfl⟩)

/-- **A file is read first**, whatever follows it that it does not go on with: all complaints are
about that, and what is found there is put behind the items of the file. -/
theorem tree_append (f : File) {rest : List Token} (h : Stops f.goesOn rest) :
    Reader.tree (f.tokens ++ rest) =
      ⟨⟨some f.name.tree,
          (f.items.map Item.tree ++ (items item rest).value).filterMap Sum.getLeft?,
          (f.items.map Item.tree ++ (items item rest).value).filterMap Sum.getRight?⟩,
        (items item rest).complaints, (items item rest).rest⟩ := by
  have hclause : Stops (clauseGoesOn f.semicolon) (f.items.flatMap Item.tokens ++ rest) := by
    unfold File.goesOn at h
    cases hitems : f.items with
    | nil =>
        rw [hitems] at h
        exact h
    | cons i is =>
        obtain ⟨t, ts, hi, ht⟩ := i.exists_opensItem
        simp [hi, clauseGoesOn, Token.isSymbol_eq_false_of_opensItem ht]
  have hlast : ∀ i ∈ f.items.getLast?, Stops i.goesOn rest := by
    intro i hi
    rw [Option.mem_def] at hi
    rwa [File.goesOn, hi] at h
  have hpackage := takes_packageClause f hclause
  have htokens : f.tokens ++ rest = f.keyword.1 ::
      (f.name.tokens ++ (optional f.semicolon ++ (f.items.flatMap Item.tokens ++ rest))) := by
    simp [File.tokens]
  unfold Takes at hpackage
  simp only [Reader.tree, Bind.bind, Reader.bind, Pure.pure, Reader.pure, htokens, hpackage,
    items_append f.items hlast, List.nil_append, List.append_nil]

/-- **Completeness.** A file with a derivation is read to its end without complaint, and gives the
tree of the derivation. -/
theorem takes_file (f : File) : Takes Reader.tree f.tokens f.tree [] := by
  have hread := tree_append f (stops_nil f.goesOn)
  rwa [List.append_nil, takes_items_nil, List.append_nil] at hread

end Npl.Grammar
