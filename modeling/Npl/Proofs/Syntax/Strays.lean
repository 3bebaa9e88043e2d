import Npl.Proofs.Syntax.Acceptance
import Npl.Proofs.Syntax.Relocation
import Npl.Proofs.Syntax.Spelling

/-!
# Stray tokens between the items of a file

Tokens that belong to no item are one complaint, however many they are: what follows them is read from
the next keyword that opens an item. If they stand where an item may start, nothing of the file around
them is lost.

Tokens that come in between push the ones behind them to other places. So the file before and the file
behind are given up to the places of their tokens, by the words that stand there.

## Main definitions

* `SameWords` — tokens with the same kinds and texts, wherever they stand.
* `Tree.Alike` — trees that are the same up to the places of their tokens.

## Main results

* `Grammar.readTree_strays` — stray tokens behind a derivation, and items behind them.
* `readTree_sameWords` — tokens with the same words are read alike.
* `readTree_strays_between` — stray tokens at any place where an item may start.
-/

namespace Npl

open Text (Position)

/-! ### Stray tokens -/

namespace Grammar

open Reader

/-- Stray tokens are skipped up to the next item, with a complaint about the first one. -/
theorem item_strays {first : Token} {others rest : List Token}
    (hstray : ∀ t ∈ first :: others, t.opensItem = false)
    (hrest : Stops (fun t => !t.opensItem) rest) :
    item (first :: (others ++ rest)) = ⟨(none, true), [⟨.extraneous .item, some first⟩], rest⟩ := by
  have hfirst : (first.isKeyword "struct" = false ∧ first.isKeyword "function" = false) ∧
      first.isKeyword "use" = false := by
    simpa [Token.opensItem] using hstray first List.mem_cons_self
  have hskip : (others ++ rest).dropWhile (fun t => !t.opensItem) = rest := by
    rw [List.dropWhile_append_of_pos fun t ht => by
      simp [hstray t (List.mem_cons_of_mem first ht)]]
    cases rest with
    | nil => rfl
    | cons t rest => simpa using hrest
  simp [item, Bind.bind, Reader.bind, Pure.pure, Reader.pure, peek, complain, skip, skipTo, hfirst,
    hskip]

/-- Items are read behind stray tokens as if these were not there. -/
theorem items_strays {first : Token} {others : List Token} (left : List Item)
    (hstray : ∀ t ∈ first :: others, t.opensItem = false) :
    items item (first :: (others ++ left.flatMap Item.tokens)) =
      ⟨left.map Item.tree, [⟨.extraneous .item, some first⟩], []⟩ := by
  have hlt : (left.flatMap Item.tokens).length <
      (first :: (others ++ left.flatMap Item.tokens)).length := by
    simp only [List.length_cons, List.length_append]
    omega
  rw [items_of_go (item_strays hstray (stops_items left)) hlt, takes_items left]
  rfl

/-- The tokens of a file are those up to any of its items, and those of the items behind. -/
theorem File.tokens_split {f : File} {done left : List Item} (h : f.items = done ++ left) :
    f.tokens = ({ f with items := done } : File).tokens ++ left.flatMap Item.tokens := by
  simp [File.tokens, h]

/-- Items behind a file stand behind its tokens. -/
theorem File.tokens_append (f : File) (left : List Item) :
    ({ f with items := f.items ++ left } : File).tokens =
      f.tokens ++ left.flatMap Item.tokens :=
  tokens_split rfl

/-- **Stray tokens behind a file**, which it does not go on with, and items behind them: the file with
these items is read, with one complaint about the first stray token. -/
theorem readTree_strays (f : File) (left : List Item) {first : Token} {others : List Token}
    (hfirst : f.goesOn first = false) (hstray : ∀ t ∈ first :: others, t.opensItem = false) :
    readTree (f.tokens ++ first :: (others ++ left.flatMap Item.tokens)) =
      (({ f with items := f.items ++ left } : File).tree,
        [⟨.extraneous .item, some first⟩]) := by
  have hstops : Stops f.goesOn (first :: (others ++ left.flatMap Item.tokens)) :=
    stops_cons.2 hfirst
  have hread := tree_append f hstops
  rw [items_strays left hstray] at hread
  simp only [readTree, hread, File.tree, List.map_append]

end Grammar

/-! ### Tokens with the same words -/

/-- The same kinds and texts in the same order. -/
def SameWords (ts us : List Token) : Prop :=
  ts.map Token.word = us.map Token.word

/-- The same tree up to the places of its tokens. -/
def Tree.Alike (t u : Tree) : Prop :=
  t.relocate (fun _ => .start) = u.relocate (fun _ => .start)

namespace SameWords

variable {ts us ts' us' : List Token}

theorem append (h : SameWords ts us) (h' : SameWords ts' us') :
    SameWords (ts ++ ts') (us ++ us') := by
  rw [SameWords, List.map_append, List.map_append, h, h']

/-- All moved to one place, tokens with the same words are the same. -/
theorem map_relocate (h : SameWords ts us) (p : Position) :
    ts.map (Token.relocate fun _ => p) = us.map (Token.relocate fun _ => p) := by
  have hrelocate : (Token.relocate fun _ => p) =
      (fun word : TokenKind × String => (⟨word.1, word.2, p⟩ : Token)) ∘ Token.word := rfl
  rw [hrelocate, ← List.map_map, h, List.map_map]

/-- Items are where the words of items are. -/
theorem exists_items {is : List Grammar.Item} (h : SameWords ts (is.flatMap Grammar.Item.tokens)) :
    ∃ js : List Grammar.Item, js.flatMap Grammar.Item.tokens = ts := by
  have hmoved := Reader.moves_items (g := fun _ => .start) Reader.moves_item ts
  have hmoved' := Reader.moves_items (g := fun _ => .start) Reader.moves_item
    (is.flatMap Grammar.Item.tokens)
  -- With all tokens at one place the two readings are the same, and the second one has no complaint.
  rw [h.map_relocate, hmoved', Grammar.takes_items is] at hmoved
  have hclean : (Reader.items Reader.item ts).complaints = [] := by
    simpa [Reading.relocate] using congrArg Reading.complaints hmoved.symm
  have htakes : Reader.Takes (Reader.items Reader.item) ts (Reader.items Reader.item ts).value
      (Reader.items Reader.item ts).rest := by
    rw [Reader.Takes, ← hclean]
  obtain ⟨js, -, hjs, -⟩ := Grammar.exists_items_of_takes htakes
  exact ⟨js, hjs.symm⟩

end SameWords

/-- **Tokens with the same words are read alike**, and there are complaints about both or about
neither. -/
theorem readTree_sameWords {ts us : List Token} (h : SameWords ts us) :
    ((readTree ts).2 = [] ↔ (readTree us).2 = []) ∧ (readTree ts).1.Alike (readTree us).1 := by
  have hmoved := readTree_relocate (fun _ => .start) ts
  rw [h.map_relocate, readTree_relocate, Prod.mk.injEq] at hmoved
  refine ⟨?_, hmoved.1.symm⟩
  rw [← List.map_eq_nil_iff, ← hmoved.2, List.map_eq_nil_iff]

/-- A file is where the words of a file are. -/
theorem SameWords.exists_file {ts : List Token} {f : Grammar.File} (h : SameWords ts f.tokens) :
    ∃ g : Grammar.File, g.tokens = ts := by
  rw [← readTree_complaints_iff, (readTree_sameWords h).1, readTree_tokens]

/-- Files are alike whose words are the same, up to any item and behind it. -/
theorem Grammar.File.alike_of_sameWords (f : File) {g : File} {done left behind : List Item}
    (hitems : f.items = done ++ left)
    (hbefore : SameWords g.tokens ({ f with items := done } : File).tokens)
    (hafter : SameWords (behind.flatMap Item.tokens) (left.flatMap Item.tokens)) :
    ({ g with items := g.items ++ behind } : File).tree.Alike f.tree := by
  have hwords : SameWords ({ g with items := g.items ++ behind } : File).tokens f.tokens := by
    rw [tokens_append, tokens_split hitems]
    exact hbefore.append hafter
  simpa only [readTree_tokens] using (readTree_sameWords hwords).2

/-! ### Stray tokens between items -/

/-- **Stray tokens are isolated.** Tokens without complaint have a derivation, and an item may start
behind its package clause and behind each of its items. Wherever that is, stray tokens that come in
between, none of which opens an item and the first of which is no semicolon and no dot, are one
complaint, about the first of them; the tree stays the same up to the places of its tokens. -/
theorem readTree_strays_between {ts : List Token} (hclean : (readTree ts).2 = []) :
    ∃ f : Grammar.File, f.tokens = ts ∧ ∀ done left, f.items = done ++ left →
      ∀ (before : List Token) (first : Token) (others after : List Token),
        SameWords before ({ f with items := done } : Grammar.File).tokens →
        SameWords after (left.flatMap Grammar.Item.tokens) →
        (∀ t ∈ first :: others, t.opensItem = false) →
        first.isSymbol ";" = false → first.isSymbol "." = false →
          (readTree (before ++ first :: (others ++ after))).2 =
              [⟨.extraneous .item, some first⟩] ∧
            (readTree (before ++ first :: (others ++ after))).1.Alike (readTree ts).1 := by
  obtain ⟨f, rfl⟩ := (readTree_complaints_iff ts).1 hclean
  refine ⟨f, rfl, fun done left hitems before first others after hbefore hafter hstray hsemicolon
    hdot => ?_⟩
  -- The two parts stand at other places than in `f`, so each has a derivation of its own.
  obtain ⟨g, rfl⟩ := hbefore.exists_file
  obtain ⟨behind, rfl⟩ := hafter.exists_items
  have hfirst : g.goesOn first = false := by
    refine Bool.eq_false_iff.2 fun hgoes => ?_
    rcases Grammar.File.isSymbol_of_goesOn hgoes with h | h
    · simp [hdot] at h
    · simp [hsemicolon] at h
  rw [Grammar.readTree_strays g behind hfirst hstray]
  refine ⟨rfl, ?_⟩
  rw [readTree_tokens]
  exact f.alike_of_sameWords hitems hbefore hafter

/-- The file `package p struct S {}`. -/
def emptyStruct : Grammar.File where
  keyword := ⟨⟨.keyword, "package", ⟨1, 1, 0⟩⟩, rfl⟩
  name := .one ⟨⟨.identifier, "p", ⟨1, 9, 8⟩⟩, rfl⟩
  semicolon := none
  items := [.struct {
    keyword := ⟨⟨.keyword, "struct", ⟨1, 11, 10⟩⟩, rfl⟩
    name := ⟨⟨.identifier, "S", ⟨1, 18, 17⟩⟩, rfl⟩
    opening := ⟨⟨.symbol, "\x7b", ⟨1, 20, 19⟩⟩, rfl⟩
    fields := none
    closing := ⟨⟨.symbol, "\x7d", ⟨1, 21, 20⟩⟩, rfl⟩
    semicolon := none }]

/-- A number and a name between the package clause and the structure are one complaint. -/
theorem readTree_strays_between_emptyStruct :
    (readTree emptyStruct.tokens).2 = [] ∧
      (readTree (TokenList.ofText "package p 42 x struct S \x7b\x7d").tokens).2 =
        [⟨.extraneous .item, some ⟨.number, "42", ⟨1, 11, 10⟩⟩⟩] ∧
      (readTree (TokenList.ofText "package p 42 x struct S \x7b\x7d").tokens).1.Alike
        (readTree emptyStruct.tokens).1 := by
  have hclean : (readTree emptyStruct.tokens).2 = [] := by rw [readTree_tokens]
  have htokens : (TokenList.ofText "package p 42 x struct S \x7b\x7d").tokens =
      [⟨.keyword, "package", ⟨1, 1, 0⟩⟩, ⟨.identifier, "p", ⟨1, 9, 8⟩⟩] ++
        ⟨.number, "42", ⟨1, 11, 10⟩⟩ :: ([⟨.identifier, "x", ⟨1, 14, 13⟩⟩] ++
          [⟨.keyword, "struct", ⟨1, 16, 15⟩⟩, ⟨.identifier, "S", ⟨1, 23, 22⟩⟩,
            ⟨.symbol, "\x7b", ⟨1, 25, 24⟩⟩, ⟨.symbol, "\x7d", ⟨1, 26, 25⟩⟩]) := by decide +kernel
  obtain ⟨f, hf, hstrays⟩ := readTree_strays_between hclean
  obtain rfl := Grammar.File.eq_of_tokens_eq hf
  rw [htokens]
  exact ⟨hclean, hstrays [] emptyStruct.items rfl _ _ _ _ rfl rfl (by decide) rfl rfl⟩

end Npl
