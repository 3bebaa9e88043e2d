import Npl.Proofs.Syntax.Reading

/-!
# Tokens at other places

What is read from tokens depends on their kinds and texts only. If the tokens stand at other places,
the same tree is read from them, its tokens at the other places, and the same complaints are made
about them.

## Main definitions

* `Token.relocate`, …, `Tree.relocate` — a part of a tree with its tokens at other places.
* `Reader.Moves` — a reader does with tokens at other places what another reader does with them
  where they are.

## Main results

* `Reader.Moves.bind` — one reader after the other.
* `readTree_relocate` — the tree that is read from tokens at other places.
-/

namespace Npl

open Text (Position)

/-! ### Trees at other places -/

section

variable (g : Position → Position)

/-- The token at another place. -/
def Token.relocate (t : Token) : Token :=
  { t with pos := g t.pos }

/-- The complaint about the token at another place. -/
def Complaint.relocate (c : Complaint) : Complaint :=
  { c with token? := c.token?.map (Token.relocate g) }

/-- The dotted name with its tokens at other places. -/
def QualifiedName.relocate (q : QualifiedName) : QualifiedName :=
  ⟨q.first.relocate g, q.more.map (Token.relocate g), q.stop.relocate g⟩

/-- The type with its tokens at other places. -/
def TypeRef.relocate : TypeRef → TypeRef
  | mk token arguments stop =>
    mk (token.relocate g) (arguments.map relocate) (stop.relocate g)

/-- The field or parameter with its tokens at other places. -/
def Binding.relocate (b : Binding) : Binding :=
  ⟨b.token.relocate g, b.type?.map (TypeRef.relocate g)⟩

/-- The structure with its tokens at other places. -/
def StructDecl.relocate (d : StructDecl) : StructDecl :=
  ⟨d.keyword.relocate g, d.nameToken.relocate g, d.fields.map (Binding.relocate g)⟩

/-- The function with its tokens at other places. -/
def FunctionDecl.relocate (d : FunctionDecl) : FunctionDecl :=
  ⟨d.keyword.relocate g, d.nameToken.relocate g, d.params.map (Binding.relocate g),
    d.returns?.map (TypeRef.relocate g), d.block, d.body.map (Token.relocate g), d.stop.relocate g⟩

/-- The declaration with its tokens at other places. -/
def Declaration.relocate : Declaration → Declaration
  | struct d => struct (d.relocate g)
  | function d => function (d.relocate g)

/-- The use clause with its tokens at other places. -/
def UseClause.relocate (c : UseClause) : UseClause :=
  ⟨c.keyword.relocate g, c.name.relocate g⟩

/-- The tree with its tokens at other places. -/
def Tree.relocate (t : Tree) : Tree :=
  ⟨t.package?.map (QualifiedName.relocate g), t.uses.map (UseClause.relocate g),
    t.declarations.map (Declaration.relocate g)⟩

end

theorem TypeRef.stop_relocate (g : Position → Position) (r : TypeRef) :
    (r.relocate g).stop = r.stop.relocate g := by
  cases r
  rw [relocate]
  rfl

/-! ### Readings at other places -/

/-- A reading with its tokens at other places; `f` tells what becomes of the value. -/
def Reading.relocate {α : Type} (g : Position → Position) (f : α → α) (r : Reading α) : Reading α :=
  ⟨f r.value, r.complaints.map (Complaint.relocate g), r.rest.map (Token.relocate g)⟩

namespace Reader

variable {g : Position → Position} {α β : Type} {f : α → α} {h : β → β}

/-- With tokens at other places, `q` does what `p` does with them where they are; `f` tells what
becomes of the value. -/
def Moves (g : Position → Position) (f : α → α) (p q : Reader α) : Prop :=
  ∀ ts, q (ts.map (Token.relocate g)) = (p ts).relocate g f

namespace Moves

variable {p q : Reader α}

/-- One reader after the other. -/
theorem bind {k l : α → Reader β} (hp : Moves g f p q) (hk : ∀ a, Moves g h (k a) (l (f a))) :
    Moves g h (p >>= k) (q >>= l) := by
  intro ts
  have hsecond : l (f (p ts).value) ((p ts).rest.map (Token.relocate g)) =
      (k (p ts).value (p ts).rest).relocate g h := hk _ _
  simp only [Bind.bind, Reader.bind, hp ts, Reading.relocate, hsecond, List.map_append]

/-- One reader after the other, where the first one may answer nothing. -/
theorem bind_option {p q : Reader (Option α)} {k l : Option α → Reader β}
    (hp : Moves g (Option.map f) p q) (hnone : Moves g h (k none) (l none))
    (hsome : ∀ a, Moves g h (k (some a)) (l (some (f a)))) : Moves g h (p >>= k) (q >>= l) := by
  refine hp.bind fun a? => ?_
  cases a? with
  | none => exact hnone
  | some a => exact hsome a

theorem pure (a : α) : Moves g f (Pure.pure a) (Pure.pure (f a)) :=
  fun _ => rfl

theorem pure_of_eq {a b : α} (hab : f a = b) : Moves g f (Pure.pure a) (Pure.pure b) :=
  hab ▸ .pure a

theorem ite {c : Prop} [Decidable c] {p' q' : Reader α} (hp : Moves g f p q)
    (hp' : Moves g f p' q') : Moves g f (if c then p else p') (if c then q else q') := by
  split
  · exact hp
  · exact hp'

end Moves

/-! ### Single tokens -/

theorem moves_peek : Moves g (Option.map (Token.relocate g)) peek peek := by
  intro ts
  simp [peek, Reading.relocate]

theorem moves_next {p : Token → Bool} (hp : ∀ t, p (t.relocate g) = p t) :
    Moves g id (next p) (next p) := by
  intro ts
  cases ts <;> simp [next, Reading.relocate, hp]

theorem moves_skip : Moves g id skip skip := by
  intro ts
  simp [skip, Reading.relocate]

theorem moves_skipIf {p : Token → Bool} (hp : ∀ t, p (t.relocate g) = p t) :
    Moves g id (skipIf p) (skipIf p) := by
  intro ts
  cases ts with
  | nil => rfl
  | cons t ts =>
      rw [List.map_cons, skipIf, hp, skipIf]
      split <;> rfl

theorem moves_skipTo {p : Token → Bool} (hp : ∀ t, p (t.relocate g) = p t) :
    Moves g id (skipTo p) (skipTo p) := by
  intro ts
  simp [skipTo, Reading.relocate, List.dropWhile_map, Function.comp_def, hp]

theorem moves_complain (fault : SyntaxFault) : Moves g id (complain fault) (complain fault) := by
  intro ts
  simp [complain, Reading.relocate, Complaint.relocate]

theorem moves_expect {p : Token → Bool} (hp : ∀ t, p (t.relocate g) = p t)
    (expected : Expectation) (absent : SyntaxFault) :
    Moves g (Option.map (Token.relocate g)) (expect p expected absent)
      (expect p expected absent) := by
  intro ts
  fun_cases expect p expected absent ts with
  | case1 => rfl
  | case2 t ts ht => simp [expect, Reading.relocate, hp, ht]
  | case3 t ht => simp [expect, Reading.relocate, Complaint.relocate, hp, ht]
  | case4 t ht u us hu => simp [expect, Reading.relocate, Complaint.relocate, hp, ht, hu]
  | case5 t ht u us hu => simp [expect, Reading.relocate, Complaint.relocate, hp, ht, hu]

theorem moves_name : Moves g (Option.map (Token.relocate g)) name name :=
  moves_expect (fun _ => rfl) _ _

theorem moves_symbol (s : String) :
    Moves g (Option.map (Token.relocate g)) (symbol s) (symbol s) :=
  moves_expect (fun _ => rfl) _ _

/-! ### Repetition -/

/-- What becomes of the answer of a turn that is repeated. -/
def turned (f : α → α) (answer : Option α × Bool) : Option α × Bool :=
  (answer.1.map f, answer.2)

/-- Repeating a reader. -/
theorem moves_items {turn turn' : Reader (Option α × Bool)}
    (hturn : Moves g (turned f) turn turn') : Moves g (List.map f) (items turn) (items turn') := by
  intro ts
  fun_induction items turn ts with
  | case1 ts first hgo others ih =>
      have hgo' : (turn' (ts.map (Token.relocate g))).value.2 ∧
          (turn' (ts.map (Token.relocate g))).rest.length < (ts.map (Token.relocate g)).length := by
        simpa [hturn ts, Reading.relocate, turned] using hgo
      rw [items, dif_pos hgo', hturn ts]
      simp only [Reading.relocate, turned] at ih ⊢
      rw [ih]
      simp [first, others, Option.toList_map]
  | case2 ts first hend =>
      have hend' : ¬ ((turn' (ts.map (Token.relocate g))).value.2 ∧
          (turn' (ts.map (Token.relocate g))).rest.length <
            (ts.map (Token.relocate g)).length) := by
        simpa [hturn ts, Reading.relocate, turned] using hend
      rw [items, dif_neg hend', hturn ts]
      simp [first, Reading.relocate, turned, Option.toList_map]

/-! ### Names and types -/

/-- A dot and the name behind it, at other places. -/
def relocatePart (g : Position → Position) (pair : Token × Option Token) : Token × Option Token :=
  (pair.1.relocate g, pair.2.map (Token.relocate g))

theorem moves_dotPart : Moves g (turned (relocatePart g)) dotPart dotPart := by
  refine .bind_option moves_peek (.pure (none, false)) fun dot => .ite ?_ (.pure (none, false))
  refine .bind moves_skip fun _ => .bind moves_name fun part? => ?_
  cases part? with
  | none => exact .pure (some (dot, none), false)
  | some part => exact .pure (some (dot, some part), true)

theorem moves_qualifiedName :
    Moves g (Option.map (QualifiedName.relocate g)) qualifiedName qualifiedName := by
  refine .bind_option moves_name (.pure none) fun first => ?_
  refine .bind (moves_items moves_dotPart) fun more => .pure_of_eq ?_
  have hmore : (more.map (relocatePart g)).filterMap Prod.snd =
      (more.filterMap Prod.snd).map (Token.relocate g) := by
    rw [List.filterMap_map, List.map_filterMap]
    rfl
  have hstop : ((more.map (relocatePart g)).getLast?.map fun pair => pair.2.getD pair.1).getD
      (first.relocate g) =
      ((more.getLast?.map fun pair => pair.2.getD pair.1).getD first).relocate g := by
    rw [List.getLast?_map]
    rcases more.getLast? with _ | ⟨dot, _ | part⟩
    · rfl
    · rfl
    · rfl
  simp only [Option.map_some, QualifiedName.relocate, Option.some.injEq, QualifiedName.mk.injEq,
    true_and]
  exact ⟨hmore.symm, hstop.symm⟩

/-- Types, and the last token that was taken for them, at other places. -/
def relocateTypes (g : Position → Position) (types : List TypeRef × Token) :
    List TypeRef × Token :=
  (types.1.map (TypeRef.relocate g), types.2.relocate g)

/-- Where there is no name, there is no type. -/
theorem typeRef_of_no_name {ts mid : List Token} {complaints : List Complaint}
    (h : name ts = ⟨none, complaints, mid⟩) : typeRef ts = ⟨none, complaints, mid⟩ := by
  rw [typeRef]
  split
  · next hname =>
      rw [h] at hname
      injection hname with _ hcomplaints hmid
      rw [hcomplaints, hmid]
  · next hname => simp [h] at hname

mutual

theorem typeRef_relocate (g : Position → Position) (ts : List Token) :
    typeRef (ts.map (Token.relocate g)) =
      (typeRef ts).relocate g (Option.map (TypeRef.relocate g)) := by
  have hmoved : name (ts.map (Token.relocate g)) =
      (name ts).relocate g (Option.map (Token.relocate g)) := moves_name ts
  rcases hname : name ts with ⟨token?, complaints, mid⟩
  rw [hname] at hmoved
  cases token? with
  | none =>
      rw [typeRef_of_no_name hname, typeRef_of_no_name hmoved]
      rfl
  | some token =>
      cases mid with
      | nil =>
          have hmoved : name (ts.map (Token.relocate g)) =
            ⟨some (token.relocate g), complaints.map (Complaint.relocate g), []⟩ := hmoved
          rw [typeRef_of_name hname, typeRef_of_name hmoved]
          simp [Reading.relocate, TypeRef.relocate]
      | cons bracket inner =>
          have hmoved : name (ts.map (Token.relocate g)) = ⟨some (token.relocate g),
            complaints.map (Complaint.relocate g),
            bracket.relocate g :: inner.map (Token.relocate g)⟩ := hmoved
          have hlt : inner.length < ts.length := by
            have hshorter := length_expect_lt (congrArg Reading.value hname)
            simp only [show expect _ _ _ ts = name ts from rfl, hname, List.length_cons] at hshorter
            omega
          have harguments := typeArguments_relocate g bracket inner
          have hclose :
              symbol ">" ((typeArguments bracket inner).rest.map (Token.relocate g)) = _ :=
            moves_symbol ">" (typeArguments bracket inner).rest
          rw [typeRef_of_name hname, typeRef_of_name hmoved]
          have hsame : (bracket.relocate g).isSymbol "<" = bracket.isSymbol "<" := rfl
          simp only [harguments, Reading.relocate, hclose, hsame, relocateTypes]
          split
          · simp [TypeRef.relocate]
          · simp [TypeRef.relocate]
termination_by (ts.length, 0)

theorem typeArguments_relocate (g : Position → Position) (last : Token) (ts : List Token) :
    typeArguments (last.relocate g) (ts.map (Token.relocate g)) =
      (typeArguments last ts).relocate g (relocateTypes g) := by
  have hfirst := typeRef_relocate g ts
  have hstop : (((typeRef ts).value.map (TypeRef.stop ∘ TypeRef.relocate g)).getD
      (last.relocate g)) = (((typeRef ts).value.map TypeRef.stop).getD last).relocate g := by
    cases (typeRef ts).value with
    | none => rfl
    | some r => exact r.stop_relocate g
  rw [typeArguments, typeArguments, hfirst]
  cases hrest : (typeRef ts).rest with
  | nil =>
      simp [Reading.relocate, hrest, relocateTypes, hstop, Option.toList_map]
  | cons comma more =>
      have hsame : (comma.relocate g).isSymbol "," = comma.isSymbol "," := rfl
      simp only [Reading.relocate, hrest, List.map_cons, hsame, List.length_map]
      split
      · next hgo =>
          have hlt : more.length < ts.length := hgo.2
          have hothers := typeArguments_relocate g comma more
          simp [Reading.relocate, hothers, relocateTypes, Option.toList_map]
      · simp [relocateTypes, hstop, Option.toList_map]
termination_by (ts.length, 1)

end

theorem moves_typeRef : Moves g (Option.map (TypeRef.relocate g)) typeRef typeRef :=
  typeRef_relocate g

theorem moves_annotation :
    Moves g (Option.map (TypeRef.relocate g)) annotation annotation :=
  .bind_option (moves_symbol ":") (.pure none) fun _ => moves_typeRef

theorem moves_binding : Moves g (Option.map (Binding.relocate g)) binding binding :=
  .bind_option moves_name (.pure none) fun token =>
    .bind moves_annotation fun type? => .pure (some (Binding.mk token type?))

/-! ### Structures -/

theorem moves_fieldsEnd : Moves g id fieldsEnd fieldsEnd := by
  intro ts
  cases ts <;> rfl

theorem moves_field : Moves g (turned (Binding.relocate g)) field field := by
  refine .bind moves_fieldsEnd fun _ => .ite (.pure (none, false)) ?_
  refine .bind moves_binding fun b? => ?_
  refine .bind (moves_skipIf fun _ => rfl) fun _ => .ite (.pure (b?, true)) ?_
  refine .bind moves_fieldsEnd fun _ => .ite (.pure (b?, false)) ?_
  have hskip : Moves g (turned (Binding.relocate g)) (do
      skipTo fun t => t.isSymbol "," || t.isSymbol "\x7d" || t.opensItem
      let _ ← skipIf (·.isSymbol ",")
      Pure.pure (b?, true)) (do
      skipTo fun t => t.isSymbol "," || t.isSymbol "\x7d" || t.opensItem
      let _ ← skipIf (·.isSymbol ",")
      Pure.pure (b?.map (Binding.relocate g), true)) :=
    .bind (moves_skipTo fun _ => rfl) fun _ => .bind (moves_skipIf fun _ => rfl) fun _ =>
      .pure (b?, true)
  cases b? with
  | none => exact .ite (.bind (moves_complain _) fun _ => hskip) hskip
  | some b => exact .ite (.bind (moves_complain _) fun _ => hskip) hskip

theorem moves_giveUp : Moves g (Option.map f) giveUp giveUp :=
  .bind (moves_skipTo fun _ => rfl) fun _ => .pure none

theorem moves_struct (keyword : Token) : Moves g (Option.map (StructDecl.relocate g))
    (struct keyword) (struct (keyword.relocate g)) :=
  .bind_option moves_name moves_giveUp fun name =>
    .bind_option (moves_symbol _) moves_giveUp fun _ =>
      .bind (moves_items moves_field) fun fields =>
        .bind (moves_symbol _) fun _ => .bind (moves_skipIf fun _ => rfl) fun _ =>
          .pure (some (StructDecl.mk keyword name fields))

/-! ### Functions -/

theorem moves_param : Moves g (turned (Binding.relocate g)) param param :=
  .bind_option moves_binding (.pure (none, false)) fun b =>
    .bind (moves_skipIf fun _ => rfl) fun more => .pure (some b, more)

theorem moves_params : Moves g (List.map (Binding.relocate g)) params params :=
  .bind (moves_next fun _ => rfl) fun _ => .ite (.pure []) (moves_items moves_param)

theorem cut_relocate {p : Token → Bool} (hp : ∀ t, p (t.relocate g) = p t) (depth : Nat)
    (ts : List Token) : cut p depth (ts.map (Token.relocate g)) =
      ((cut p depth ts).1.map (Token.relocate g), (cut p depth ts).2.map (Token.relocate g)) := by
  induction ts generalizing depth with
  | nil => rfl
  | cons t ts ih =>
      have hnest : nest depth (t.relocate g) = nest depth t := rfl
      simp only [List.map_cons, cut, hp, hnest, ih]
      split <;> rfl

theorem moves_run {p : Token → Bool} (hp : ∀ t, p (t.relocate g) = p t) :
    Moves g (List.map (Token.relocate g)) (run p) (run p) := by
  intro ts
  simp [run, Reading.relocate, cut_relocate hp]

/-- A body and the last token of its function, at other places. -/
def relocateBody (g : Position → Position) (body : List Token × Token) : List Token × Token :=
  (body.1.map (Token.relocate g), body.2.relocate g)

theorem moves_block : Moves g (Option.map (relocateBody g)) block block :=
  .bind (moves_run fun _ => rfl) fun body =>
    .bind_option moves_peek (.bind (moves_complain _) fun _ => .pure none) fun close =>
      .bind moves_skip fun _ => .pure (some (body, close))

theorem moves_expression : Moves g (Option.map (relocateBody g)) expression expression := by
  refine .bind (moves_run fun _ => rfl) fun body => ?_
  rw [List.getLast?_map]
  cases body.getLast? with
  | none =>
      exact .bind (moves_complain _) fun _ => .bind (moves_skipIf fun _ => rfl) fun _ => .pure none
  | some last =>
      refine .bind_option moves_peek ?_ fun stop => .ite ?_ ?_
      · exact .bind (moves_complain _) fun _ => .pure (some (body, last))
      · exact .bind moves_skip fun _ => .pure (some (body, stop))
      · exact .bind (moves_complain _) fun _ => .pure (some (body, last))

/-- Whether a body is a block, and the body, at another place. -/
def relocateBlock (g : Position → Position) (body : Bool × Option (List Token × Token)) :
    Bool × Option (List Token × Token) :=
  (body.1, body.2.map (relocateBody g))

theorem moves_functionBody : Moves g (relocateBlock g) functionBody functionBody :=
  .bind (moves_skipIf fun _ => rfl) fun _ => .ite
    (.bind moves_block fun body => .bind (moves_skipIf fun _ => rfl) fun _ => .pure (true, body))
    (.bind moves_expression fun body => .pure (false, body))

theorem moves_returnType : Moves g (Option.map (TypeRef.relocate g)) returnType returnType :=
  .bind (moves_skipIf fun _ => rfl) fun _ => .ite moves_typeRef (.pure none)

theorem moves_function (keyword : Token) : Moves g (Option.map (FunctionDecl.relocate g))
    (function keyword) (function (keyword.relocate g)) := by
  refine .bind_option moves_name moves_giveUp fun name => ?_
  refine .bind_option (moves_symbol _) moves_giveUp fun _ => .bind moves_params fun params => ?_
  refine .bind_option (moves_symbol _) moves_giveUp fun _ => ?_
  refine .bind moves_returnType fun returns? => ?_
  refine .bind_option (moves_symbol _) moves_giveUp fun _ => .bind moves_functionBody fun body => ?_
  obtain ⟨block, _ | ⟨tokens, stop⟩⟩ := body
  · exact .pure none
  · exact .pure (some (FunctionDecl.mk keyword name params returns? block tokens stop))

/-! ### Files -/

theorem moves_useClause (keyword : Token) : Moves g (Option.map (UseClause.relocate g))
    (useClause keyword) (useClause (keyword.relocate g)) :=
  .bind_option moves_qualifiedName moves_giveUp fun name =>
    .bind (moves_skipIf fun _ => rfl) fun _ => .pure (some (UseClause.mk keyword name))

theorem moves_packageClause :
    Moves g (Option.map (QualifiedName.relocate g)) packageClause packageClause :=
  .bind (moves_skipIf fun _ => rfl) fun _ => .ite
    (.bind moves_qualifiedName fun name => .bind (moves_skipIf fun _ => rfl) fun _ => .pure name)
    (.bind (moves_complain _) fun _ => .pure none)

/-- A top-level item with its tokens at other places. -/
def relocateItem (g : Position → Position) : UseClause ⊕ Declaration → UseClause ⊕ Declaration :=
  Sum.map (UseClause.relocate g) (Declaration.relocate g)

theorem moves_item : Moves g (turned (relocateItem g)) item item := by
  refine .bind_option moves_peek (.pure (none, false)) fun t => ?_
  refine .ite ?use (.ite ?struct (.ite ?function ?other))
  case use =>
    refine .bind moves_skip fun _ => .bind (moves_useClause t) fun c? => .pure_of_eq ?_
    cases c? <;> rfl
  case struct =>
    refine .bind moves_skip fun _ => .bind (moves_struct t) fun d? => .pure_of_eq ?_
    cases d? <;> rfl
  case function =>
    refine .bind moves_skip fun _ => .bind (moves_function t) fun d? => .pure_of_eq ?_
    cases d? <;> rfl
  case other =>
    exact .bind (moves_complain _) fun _ => .bind moves_skip fun _ =>
      .bind (moves_skipTo fun _ => rfl) fun _ => .pure (none, true)

/-- A file is read the same way wherever its tokens are. -/
theorem moves_tree : Moves g (Tree.relocate g) tree tree := by
  refine .bind moves_packageClause fun package? => ?_
  refine .bind (moves_items moves_item) fun items => .pure_of_eq ?_
  have huses : (items.map (relocateItem g)).filterMap Sum.getLeft? =
      (items.filterMap Sum.getLeft?).map (UseClause.relocate g) := by
    rw [List.filterMap_map, List.map_filterMap]
    congr 1
    funext i
    cases i <;> rfl
  have hdeclarations : (items.map (relocateItem g)).filterMap Sum.getRight? =
      (items.filterMap Sum.getRight?).map (Declaration.relocate g) := by
    rw [List.filterMap_map, List.map_filterMap]
    congr 1
    funext i
    cases i <;> rfl
  rw [Tree.relocate, huses, hdeclarations]

end Reader

/-- The tree that is read from tokens at other places, and the complaints about them. -/
theorem readTree_relocate (g : Position → Position) (ts : List Token) :
    readTree (ts.map (Token.relocate g)) =
      ((readTree ts).1.relocate g, (readTree ts).2.map (Complaint.relocate g)) := by
  have htree : Reader.tree (ts.map (Token.relocate g)) =
      (Reader.tree ts).relocate g (Tree.relocate g) := Reader.moves_tree ts
  simp only [readTree, htree, Reading.relocate]

end Npl
