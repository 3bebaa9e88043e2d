import Npl.Proofs.Syntax.Strays

/-!
# Semicolons behind items

A semicolon may be left out behind a use clause, a structure and a block, so putting it there changes
nothing but the places of the tokens behind it. An expression ends with a semicolon of its own, and a
second one behind it is a stray token: the file is read as before, with a complaint.

## Main definitions

* `Grammar.Item.trailing?` — the semicolon behind an item, if it was not left out.
* `Grammar.Item.isExpression` — an item whose body is an expression.

## Main results

* `Grammar.readTree_semicolon` — a semicolon behind a derivation, and items behind it.
* `readTree_semicolon_behind` — a semicolon behind any item where none was.
-/

namespace Npl

namespace Grammar

/-! ### The semicolon behind an item -/

/-- The semicolon behind a body, where it may be left out. -/
def Body.trailing? : Body → Option (Sym ";")
  | block _ _ _ _ semicolon => semicolon
  | expression .. => none

/-- The semicolon behind an item, where it may be left out. -/
def Item.trailing? : Item → Option (Sym ";")
  | use u => u.semicolon
  | struct d => d.semicolon
  | function d => d.body.trailing?

/-- Whether the item is a function whose body is an expression. -/
def Item.isExpression : Item → Bool
  | function d => !d.body.isBlock
  | use _ => false
  | struct _ => false

/-- The body with a semicolon behind it; an expression has its own. -/
def Body.close (s : Sym ";") : Body → Body
  | block opening inside enclosed closing _ => block opening inside enclosed closing (some s)
  | expression inside enclosed occupied unbraced semicolon =>
    expression inside enclosed occupied unbraced semicolon

/-- The item with a semicolon behind it. -/
def Item.close (s : Sym ";") : Item → Item
  | use u => use { u with semicolon := some s }
  | struct d => struct { d with semicolon := some s }
  | function d => function { d with body := d.body.close s }

/-- What a clause or block goes on with, if that is a semicolon. -/
theorem goesOn_of_isNone {semicolon : Option (Sym ";")} {s : Sym ";"} :
    clauseGoesOn semicolon s.1 = semicolon.isNone ∧ fills semicolon s.1 = semicolon.isNone := by
  simp [clauseGoesOn, fills, s.2]

/-- An item goes on with a semicolon where that was left out. -/
theorem Item.goesOn_semicolon (i : Item) (s : Sym ";") :
    i.goesOn s.1 = (i.trailing?.isNone && !i.isExpression) := by
  cases i with
  | use u => simp [goesOn, trailing?, isExpression, goesOn_of_isNone]
  | struct d => simp [goesOn, trailing?, isExpression, goesOn_of_isNone]
  | function d =>
      cases hbody : d.body with
      | block => simp [goesOn, trailing?, isExpression, hbody, Body.goesOn, Body.trailing?,
          Body.isBlock, goesOn_of_isNone]
      | expression => simp [goesOn, isExpression, hbody, Body.goesOn, Body.isBlock]

/-- The semicolon behind an item declares nothing. -/
theorem Item.tree_close (s : Sym ";") (i : Item) : (i.close s).tree = i.tree := by
  cases i with
  | use u => rfl
  | struct d => rfl
  | function d =>
      obtain ⟨keyword, name, opening, params, closing, result, arrow, body⟩ := d
      cases body <;> rfl

/-- The semicolon stands behind the item. -/
theorem Item.tokens_close {s : Sym ";"} {i : Item} (h : i.goesOn s.1 = true) :
    (i.close s).tokens = i.tokens ++ [s.1] := by
  rw [goesOn_semicolon, Bool.and_eq_true, Option.isNone_iff_eq_none] at h
  obtain ⟨hnone, hblock⟩ := h
  cases i with
  | use u =>
      have husemi : u.semicolon = none := hnone
      simp [close, tokens, Use.tokens, husemi, optional]
  | struct d =>
      have hsemi : d.semicolon = none := hnone
      simp [close, tokens, Struct.tokens, hsemi, optional]
  | function d =>
      obtain ⟨keyword, name, opening, params, closing, result, arrow, body⟩ := d
      cases body with
      | block opening inside enclosed closing semicolon =>
          have hsemi : semicolon = none := hnone
          simp [close, tokens, Function.tokens, Body.close, Body.tokens, hsemi, optional]
      | expression => simp [isExpression, Body.isBlock] at hblock

/-- A file that goes on with a semicolon takes it, and declares what it declared without it. -/
theorem File.exists_close {f : File} {s : Sym ";"} (h : f.goesOn s.1 = true) :
    ∃ g : File, g.tokens = f.tokens ++ [s.1] ∧ g.name = f.name ∧
      g.items.map Item.tree = f.items.map Item.tree := by
  obtain ⟨keyword, name, semicolon, is⟩ := f
  rcases List.eq_nil_or_concat is with rfl | ⟨init, last, rfl⟩
  · have hsemi : semicolon = none := by
      simpa [goesOn, goesOn_of_isNone] using h
    exact ⟨⟨keyword, name, some s, []⟩, by simp [tokens, hsemi, optional], rfl, rfl⟩
  · have hlast : last.goesOn s.1 = true := by simpa [goesOn] using h
    refine ⟨⟨keyword, name, semicolon, init ++ [last.close s]⟩, ?_, rfl, ?_⟩
    · simp [tokens, Item.tokens_close hlast]
    · simp [Item.tree_close]

/-- **A semicolon behind a file**, and items behind it: the file with these items is read, with a
complaint about the semicolon if the file does not go on with it. -/
theorem readTree_semicolon (f : File) (left : List Item) (s : Sym ";") :
    readTree (f.tokens ++ s.1 :: left.flatMap Item.tokens) =
      (({ f with items := f.items ++ left } : File).tree,
        if f.goesOn s.1 then [] else [⟨.extraneous .item, some s.1⟩]) := by
  cases hgoes : f.goesOn s.1 with
  | true =>
      obtain ⟨g, htokens, hname, hitems⟩ := File.exists_close hgoes
      have hclosed : ({ g with items := g.items ++ left } : File).tokens =
          f.tokens ++ s.1 :: left.flatMap Item.tokens := by
        rw [File.tokens_append]
        simp [htokens]
      rw [← hclosed, readTree_tokens]
      simp [File.tree, hname, hitems]
  | false =>
      have hs : s.1.opensItem = false := by
        refine Bool.eq_false_iff.2 fun hopens => ?_
        have hsymbol := Token.isSymbol_eq_false_of_opensItem (s := ";") hopens
        simp [s.2] at hsymbol
      have hstray : ∀ t ∈ s.1 :: [], t.opensItem = false := by simpa using hs
      have hread := readTree_strays f left hgoes hstray
      rw [List.nil_append] at hread
      rw [hread, if_neg Bool.false_ne_true]

end Grammar

/-- Whether a file goes on with a semicolon depends on the words of its tokens only. -/
theorem goesOn_eq_of_sameWords {f g : Grammar.File} (s : Grammar.Sym ";")
    (h : SameWords f.tokens g.tokens) : f.goesOn s.1 = g.goesOn s.1 := by
  have hmark : SameWords [s.1] [s.1] := rfl
  -- Whether there is a complaint about the semicolon shows whether the file goes on with it.
  have hclean := (readTree_sameWords (h.append hmark)).1
  have hf := Grammar.readTree_semicolon f [] s
  have hg := Grammar.readTree_semicolon g [] s
  rw [List.flatMap_nil] at hf hg
  rw [hf, hg] at hclean
  rw [Bool.eq_iff_iff]
  simpa using hclean

/-! ### A semicolon behind any item -/

/-- **Semicolons behind items.** Tokens without complaint have a derivation. A semicolon that is put
behind an item where none was changes nothing but the places of tokens, except behind an expression:
it is a stray token there, and a complaint. -/
theorem readTree_semicolon_behind {ts : List Token} (hclean : (readTree ts).2 = []) :
    ∃ f : Grammar.File, f.tokens = ts ∧ ∀ done i left, f.items = done ++ i :: left →
      i.trailing? = none → ∀ (before : List Token) (s : Token) (after : List Token),
        SameWords before ({ f with items := done ++ [i] } : Grammar.File).tokens →
        SameWords after (left.flatMap Grammar.Item.tokens) → s.isSymbol ";" = true →
          (readTree (before ++ s :: after)).2 =
              (if i.isExpression then [⟨.extraneous .item, some s⟩] else []) ∧
            (readTree (before ++ s :: after)).1.Alike (readTree ts).1 := by
  obtain ⟨f, rfl⟩ := (readTree_complaints_iff ts).1 hclean
  refine ⟨f, rfl, fun done i left hitems hnone before s after hbefore hafter hs => ?_⟩
  have hsplit : f.items = (done ++ [i]) ++ left := by simp [hitems]
  obtain ⟨g, rfl⟩ := hbefore.exists_file
  obtain ⟨behind, rfl⟩ := hafter.exists_items
  have hgoes : g.goesOn s = !i.isExpression := by
    rw [goesOn_eq_of_sameWords ⟨s, hs⟩ hbefore]
    simpa [Grammar.File.goesOn, hnone] using i.goesOn_semicolon ⟨s, hs⟩
  rw [Grammar.readTree_semicolon g behind ⟨s, hs⟩]
  refine ⟨by cases hexpr : i.isExpression <;> simp [hgoes, hexpr], ?_⟩
  rw [readTree_tokens]
  exact f.alike_of_sameWords hsplit hbefore hafter

/-- The expression `1`. -/
theorem encloses_one : Grammar.Encloses Grammar.endsExpression [⟨.number, "1", ⟨1, 27, 26⟩⟩] := by
  have hcut : Reader.cut Grammar.endsExpression 0
      [⟨.number, "1", ⟨1, 27, 26⟩⟩, ⟨.symbol, ";", ⟨1, 28, 27⟩⟩] =
        ([⟨.number, "1", ⟨1, 27, 26⟩⟩], [⟨.symbol, ";", ⟨1, 28, 27⟩⟩]) := rfl
  exact (Grammar.encloses_of_cut hcut).1

/-- The file `package p function f() -> 1;`. -/
def constantOne : Grammar.File where
  keyword := emptyStruct.keyword
  name := emptyStruct.name
  semicolon := none
  items := [.function {
    keyword := ⟨⟨.keyword, "function", ⟨1, 11, 10⟩⟩, rfl⟩
    name := ⟨⟨.identifier, "f", ⟨1, 20, 19⟩⟩, rfl⟩
    opening := ⟨⟨.symbol, "(", ⟨1, 21, 20⟩⟩, rfl⟩
    params := none
    closing := ⟨⟨.symbol, ")", ⟨1, 22, 21⟩⟩, rfl⟩
    result := none
    arrow := ⟨⟨.symbol, "->", ⟨1, 24, 23⟩⟩, rfl⟩
    body := .expression _ encloses_one (List.cons_ne_nil _ _) rfl ⟨⟨.symbol, ";", ⟨1, 28, 27⟩⟩, rfl⟩ }]

/-- A semicolon is taken behind a structure, and is a complaint behind an expression. -/
theorem readTree_semicolon_behind_constantOne :
    ((readTree emptyStruct.tokens).2 = [] ∧
      (readTree (TokenList.ofText "package p struct S \x7b\x7d;").tokens).2 = []) ∧
    (readTree constantOne.tokens).2 = [] ∧
      (readTree (TokenList.ofText "package p function f() -> 1;;").tokens).2 =
        [⟨.extraneous .item, some ⟨.symbol, ";", ⟨1, 29, 28⟩⟩⟩] := by
  have hstruct : (readTree emptyStruct.tokens).2 = [] := by rw [readTree_tokens]
  have hone : (readTree constantOne.tokens).2 = [] := by rw [readTree_tokens]
  have hstructTokens : (TokenList.ofText "package p struct S \x7b\x7d;").tokens =
      emptyStruct.tokens ++ ⟨.symbol, ";", ⟨1, 22, 21⟩⟩ :: [] := by decide +kernel
  have honeTokens : (TokenList.ofText "package p function f() -> 1;;").tokens =
      constantOne.tokens ++ ⟨.symbol, ";", ⟨1, 29, 28⟩⟩ :: [] := by decide +kernel
  refine ⟨⟨hstruct, ?_⟩, hone, ?_⟩
  · obtain ⟨f, hf, hsemicolon⟩ := readTree_semicolon_behind hstruct
    obtain rfl := Grammar.File.eq_of_tokens_eq hf
    rw [hstructTokens]
    exact (hsemicolon [] _ [] rfl rfl _ _ _ rfl rfl rfl).1
  · obtain ⟨f, hf, hsemicolon⟩ := readTree_semicolon_behind hone
    obtain rfl := Grammar.File.eq_of_tokens_eq hf
    rw [honeTokens]
    exact (hsemicolon [] _ [] rfl rfl _ _ _ rfl rfl rfl).1

end Npl
