import Npl.Proofs.Syntax.Course

/-!
# Where reading ends

A parser with plain loops reads what the readers read. It has none of their safeguards, so it may
go round one of its loops for ever, and there is exactly one way to get there: an expression whose
brackets are still open where the file ends. From any other text the parser gets to the end of the
file.

The turns of all loops take a token or are the last one, on every path of recovery. Hence a loop
does what the repetition of readers does that belongs to it, by induction on the tokens left. Only
a turn of the loop over an expression asks for another one at the end of the file, where there is no
token to take: it does so if a bracket is open, and then it does so again and again.

## Main definitions

* `Course.endsUnless` — what a reader does, but for the values with which nothing ever ends.
* `Course.TurnsAdvance` — the turns of all loops take a token or are the last one.
* `Tree.LeavesOpen` — an expression of the tree has a bracket open where the file ends.

## Main results

* `Course.gathered_eq` — a loop whose turns take something does what the repetition of readers does.
* `Course.loop_bodyTurn` — where the loop over the tokens of a body ends, and that it does not.
* `Course.tree_eq` — files are read as the readers read them, or not to an end.
* `Course.parse_ends_unless_open` — **what comes of reading a text with plain loops**.
-/

namespace Npl

namespace Course

open Reader (peek skip skipIf name symbol dotPart mark typeHead argumentsBehind nest items cut run
  closeExpression)

variable {α β σ : Type}

/-! ### What readers do -/

theorem does_pure (a : α) : (Pure.pure a : Course α) = does (Pure.pure a) := by
  funext c
  simp [does, Cursor.behind, Pure.pure, Reader.pure]

/-- What a reader does behind another one. -/
theorem does_behind (p : Reader α) (f : α → Reader β) (c : Cursor) :
    does (f (p c.rest).value) (c.behind (p c.rest)) = does (p >>= f) c := by
  simp [does, Cursor.behind, Bind.bind, Reader.bind]

/-- What two readers do one after the other, seen from one cursor. -/
theorem bind_apply {p : Reader α} {f : α → Reader β} {d : Course α} {g : α → Course β} {c : Cursor}
    (hd : d c = does p c) (hg : g (p c.rest).value (c.behind (p c.rest)) =
      does (f (p c.rest).value) (c.behind (p c.rest))) :
    (d >>= g) c = does (p >>= f) c := by
  rw [bind_of_ends hd, hg, does_behind]

theorem does_bind {p : Reader α} {f : α → Reader β} {g : α → Course β}
    (h : ∀ a, g a = does (f a)) : does p >>= g = does (p >>= f) := by
  funext c
  exact bind_apply rfl (congrFun (h _) _)

theorem does_ite {b : Prop} [Decidable b] {p q : Reader α} {d e : Course α} (hd : d = does p)
    (he : e = does q) : (if b then d else e) = does (if b then p else q) := by
  split
  · exact hd
  · exact he

/-- Does what the reader does, but never comes to an end with an open value. -/
def endsUnless (isOpen : α → Bool) (p : Reader α) : Course α := fun c =>
  if isOpen (p c.rest).value then ∅ else does p c

section

variable {isOpen : α → Bool}

theorem endsUnless_apply (isOpen : α → Bool) {p : Reader α} {c : Cursor} {r : Reading α}
    (h : p c.rest = r) :
    endsUnless isOpen p c = if isOpen r.value then ∅ else {(r.value, c.behind r)} := by
  rw [endsUnless, does, h]

theorem does_eq_endsUnless {p : Reader α} (h : ∀ ts, isOpen (p ts).value = false) :
    does p = endsUnless isOpen p := by
  funext c
  rw [endsUnless, h, if_neg Bool.false_ne_true]

/-- Where something comes first that always ends. -/
theorem does_bind_endsUnless {p : Reader β} {f : β → Reader α} {g : β → Course α}
    (hg : ∀ b, g b = endsUnless isOpen (f b)) : does p >>= g = endsUnless isOpen (p >>= f) := by
  funext c
  rw [bind_of_ends rfl, hg, endsUnless, does_behind]
  rfl

/-- Where something comes behind that always ends, and what is open stays open. -/
theorem endsUnless_bind {isOpen' : β → Bool} {p : Reader α} {f : α → Reader β} {g : α → Course β}
    (hopen : ∀ a ts, isOpen' (f a ts).value = isOpen a) (hg : ∀ a, g a = does (f a)) :
    endsUnless isOpen p >>= g = endsUnless isOpen' (p >>= f) := by
  funext c
  have hvalue : isOpen' ((p >>= f) c.rest).value = isOpen (p c.rest).value := hopen _ _
  rw [endsUnless, hvalue]
  cases hfirst : isOpen (p c.rest).value with
  | true => exact bind_of_empty (if_pos hfirst)
  | false => exact bind_apply (if_neg (by simp [hfirst])) (congrFun (hg _) _)

theorem endsUnless_ite {b : Prop} [Decidable b] {p q : Reader α} {d e : Course α}
    (hd : d = endsUnless isOpen p) (he : e = endsUnless isOpen q) :
    (if b then d else e) = endsUnless isOpen (if b then p else q) := by
  split
  · exact hd
  · exact he

end

/-! ### Loops that end -/

theorem does_peek (c : Cursor) : does peek c = {(c.rest.head?, c)} := by
  simp [does, Cursor.behind, peek]

theorem does_skip (t : Token) (ts : List Token) (complaints : List Complaint) :
    does skip ⟨t :: ts, complaints⟩ = {((), ⟨ts, complaints⟩)} := by
  simp [does, Cursor.behind, skip]

theorem passOver_nil (p : Token → Bool) (complaints : List Complaint) :
    passOver p () ⟨[], complaints⟩ = {(((), false), ⟨[], complaints⟩)} := by
  rw [passOver, bind_of_ends (does_peek _)]
  rfl

theorem passOver_cons (p : Token → Bool) (t : Token) (ts : List Token)
    (complaints : List Complaint) : passOver p () ⟨t :: ts, complaints⟩ =
      {(((), !p t), ⟨if p t then t :: ts else ts, complaints⟩)} := by
  rw [passOver, bind_of_ends (does_peek _)]
  simp only [List.head?_cons]
  cases ht : p t with
  | true => rfl
  | false => exact bind_of_ends (does_skip t ts complaints)

theorem passTo_eq (p : Token → Bool) : passTo p = does (Reader.skipTo p) := by
  funext ⟨ts, complaints⟩
  change loop (passOver p) () ⟨ts, complaints⟩ = _
  induction ts with
  | nil =>
      rw [loop_of_last (passOver_nil p complaints)]
      simp [does, Cursor.behind, Reader.skipTo]
  | cons t ts ih =>
      have hturn := passOver_cons p t ts complaints
      cases ht : p t with
      | true =>
          rw [ht] at hturn
          rw [loop_of_last hturn]
          simp [does, Cursor.behind, Reader.skipTo, ht]
      | false =>
          rw [ht] at hturn
          rw [loop_of_next hturn]
          simpa [does, Cursor.behind, Reader.skipTo, ht] using ih

section

variable {p : Reader (Option α × Bool)}

theorem gather_apply (isOpen : α → Bool) {c : Cursor} {item? : Option α} {more : Bool}
    {complaints : List Complaint} {mid : List Token} (before : List α)
    (h : p c.rest = ⟨(item?, more), complaints, mid⟩) :
    gather (endsUnless (fun o => o.1.any isOpen) p) before c = if item?.any isOpen then ∅
      else {((before ++ item?.toList, more), ⟨mid, c.complaints ++ complaints⟩)} := by
  have hturn := endsUnless_apply (fun o => o.1.any isOpen) h
  cases hopen : item?.any isOpen with
  | true => exact bind_of_empty (hturn.trans (if_pos hopen))
  | false => exact bind_of_ends (hturn.trans (if_neg (by simp [hopen])))

/-- What is open stays open among what is gathered behind it. -/
theorem any_items {isOpen : α → Bool} {ts mid : List Token} {item? : Option α} {more : Bool}
    {complaints : List Complaint} (h : p ts = ⟨(item?, more), complaints, mid⟩)
    (hopen : item?.any isOpen = true) : (items p ts).value.any isOpen = true := by
  have hfirst : item?.toList.any isOpen = true := by cases item? <;> simp_all
  rw [Reader.items]
  split <;> simp [h, hfirst]

/-- The loop and the repetition go on side by side, with fewer tokens left after every turn that asks
for another one. -/
theorem loop_gather (isOpen : α → Bool) (hp : p.Advances) (before : List α) (c : Cursor) :
    loop (gather (endsUnless (fun o => o.1.any isOpen) p)) before c =
      (do return before ++ (← endsUnless (fun as => as.any isOpen) (items p)) : Course _) c := by
  have hshorter := hp c.rest
  rcases hreading : p c.rest with ⟨⟨item?, more⟩, complaints, mid⟩
  rw [hreading] at hshorter
  have hturn := gather_apply isOpen before hreading
  cases hopen : item?.any isOpen with
  | true =>
      rw [loop_of_empty (hturn.trans (if_pos hopen)),
        bind_of_empty (if_pos (any_items hreading hopen))]
  | false =>
      have hturn := hturn.trans (if_neg (by simp [hopen]))
      have hfirst : item?.toList.any isOpen = false := by cases item? <;> simp_all
      cases more with
      | false =>
          have hitems := endsUnless_apply (fun as => as.any isOpen) (Reader.items_of_last hreading)
          rw [loop_of_last hturn, bind_of_ends (hitems.trans (if_neg (by simp [hfirst])))]
          rfl
      | true =>
          have hlt : mid.length < c.rest.length := hshorter rfl
          have hitems := endsUnless_apply (fun as => as.any isOpen)
            (Reader.items_of_go hreading hlt)
          rw [List.any_append, hfirst, Bool.false_or] at hitems
          rw [loop_of_next hturn, loop_gather isOpen hp]
          by_cases hothers : (items p mid).value.any isOpen = true
          · rw [bind_of_empty (if_pos hothers), bind_of_empty (hitems.trans (if_pos hothers))]
          · rw [bind_of_ends (if_neg hothers), bind_of_ends (hitems.trans (if_neg hothers))]
            simp [Cursor.behind, Pure.pure]
termination_by c.rest.length

/-- **A loop whose turns take something does what the repetition of readers does.** It is cut short
only by an open item. -/
theorem gathered_eq (isOpen : α → Bool) (hp : p.Advances) :
    gathered (endsUnless (fun o => o.1.any isOpen) p) =
      endsUnless (fun as => as.any isOpen) (items p) := by
  funext c
  rw [gathered, loop_gather isOpen hp]
  exact congrFun (bind_pure_eq _) c

theorem gathered_does (hp : p.Advances) : gathered (does p) = does (items p) := by
  have h := gathered_eq (fun _ => false) hp
  rwa [← does_eq_endsUnless (by simp), ← does_eq_endsUnless (by simp)] at h

end

/-! ### Names and types -/

theorem qualifiedName_eq : qualifiedName = does Reader.qualifiedName := by
  refine does_bind fun first? => ?_
  cases first? with
  | none => exact does_pure none
  | some first =>
      rw [gathered_does Reader.advances_dotPart]
      exact does_bind fun more => does_pure _

mutual

-- The tokens left get fewer on the way down: a bracket is taken before the first argument of a type,
-- and a comma before each other one. A type by itself need not take anything.
theorem typeRef_apply (c : Cursor) : typeRef c = does Reader.typeRef c := by
  rw [typeRef_eq_do, Reader.typeRef_eq]
  refine bind_apply rfl ?_
  rcases hhead : (typeHead c.rest).value with _ | ⟨token, _ | bracket⟩
  · exact congrFun (does_pure _) _
  · exact congrFun (does_pure _) _
  · have hlt : (typeHead c.rest).rest.length < c.rest.length := Reader.length_typeHead_lt hhead
    exact bind_apply (typeArguments_apply ([], bracket) (c.behind (typeHead c.rest)))
      (congrFun (does_bind fun close => does_pure _) _)
termination_by (c.rest.length, 0)

theorem typeArguments_apply (before : List TypeRef × Token) (c : Cursor) :
    typeArguments before c = does (argumentsBehind before) c := by
  rw [typeArguments_eq_do, Reader.argumentsBehind_eq]
  refine bind_apply (typeRef_apply c) (bind_apply rfl ?_)
  cases hcomma : (mark "," (c.behind (Reader.typeRef c.rest)).rest).value with
  | none => exact congrFun (does_pure _) _
  | some comma =>
      have hlt : (mark "," (Reader.typeRef c.rest).rest).rest.length < c.rest.length :=
        (Reader.length_mark_lt hcomma).trans_le Reader.draws_typeRef.length_rest_le
      exact typeArguments_apply _ ((c.behind (Reader.typeRef c.rest)).behind _)
termination_by (c.rest.length, 1)

end

theorem typeRef_eq : typeRef = does Reader.typeRef :=
  funext typeRef_apply

theorem annotation_eq : annotation = does Reader.annotation := by
  refine does_bind fun colon? => ?_
  cases colon? with
  | none => exact does_pure none
  | some colon => exact typeRef_eq

theorem binding_eq : binding = does Reader.binding := by
  refine does_bind fun token? => ?_
  cases token? with
  | none => exact does_pure none
  | some token =>
      rw [annotation_eq]
      exact does_bind fun type? => does_pure _

/-! ### Structures -/

theorem field_eq : field = does Reader.field := by
  refine does_bind fun _ => does_ite (does_pure _) ?_
  rw [binding_eq]
  refine does_bind fun binding? => does_bind fun _ => does_ite (does_pure _) ?_
  refine does_bind fun _ => does_ite (does_pure _) ?_
  rw [passTo_eq]
  have hskip : ∀ u : Unit, (do
      does (Reader.skipTo fun t => t.isSymbol "," || t.isSymbol "\x7d" || t.opensItem)
      let _ ← does (skipIf (·.isSymbol ","))
      Pure.pure (binding?, true) : Course (Option Binding × Bool)) = does (do
        Reader.skipTo fun t => t.isSymbol "," || t.isSymbol "\x7d" || t.opensItem
        let _ ← skipIf (·.isSymbol ",")
        Pure.pure (binding?, true)) := fun _ =>
    does_bind fun _ => does_bind fun _ => does_pure _
  exact does_ite (does_bind hskip) (hskip ())

theorem giveUp_eq : (giveUp : Course (Option α)) = does Reader.giveUp := by
  rw [giveUp, passTo_eq]
  exact does_bind fun _ => does_pure none

theorem struct_eq (keyword : Token) : struct keyword = does (Reader.struct keyword) := by
  refine does_bind fun name? => ?_
  cases name? with
  | none => exact giveUp_eq
  | some nameToken =>
      refine does_bind fun brace? => ?_
      cases brace? with
      | none => exact giveUp_eq
      | some brace =>
          simp only
          rw [field_eq, gathered_does Reader.advances_field]
          exact does_bind fun fields => does_bind fun _ => does_bind fun _ => does_pure _

/-! ### Bodies -/

section

variable {p : Token → Bool} {goesOn : Nat → Bool}

theorem bodyTurn_nil (before : List Token) (depth : Nat) (complaints : List Complaint) :
    bodyTurn p goesOn (before, depth) ⟨[], complaints⟩ =
      {(((before, depth), goesOn depth), ⟨[], complaints⟩)} := by
  rw [bodyTurn, bind_of_ends (does_peek _)]
  rfl

theorem bodyTurn_cons (before : List Token) (depth : Nat) (t : Token) (ts : List Token)
    (complaints : List Complaint) :
    bodyTurn p goesOn (before, depth) ⟨t :: ts, complaints⟩ =
      if depth = 0 ∧ p t then {(((before, depth), false), ⟨t :: ts, complaints⟩)}
      else {(((before ++ [t], nest depth t), true), ⟨ts, complaints⟩)} := by
  rw [bodyTurn, bind_of_ends (does_peek _)]
  simp only [List.head?_cons]
  split
  · rfl
  · exact bind_of_ends (does_skip t ts complaints)

/-- A loop that goes on at the end of the file does so for ever. -/
theorem loop_bodyTurn_nil (before : List Token) {depth : Nat} (h : goesOn depth = true)
    (complaints : List Complaint) :
    loop (bodyTurn p goesOn) (before, depth) ⟨[], complaints⟩ = ∅ := by
  refine loop_eq_empty (P := fun s c => s = (before, depth) ∧ c = ⟨[], complaints⟩) ?_ ⟨rfl, rfl⟩
  rintro _ _ r c' ⟨rfl, rfl⟩ hr
  rw [bodyTurn_nil, h] at hr
  cases hr
  exact ⟨rfl, rfl, rfl⟩

/-- The loop over a body takes a run of tokens. It does not end if it goes on at the depth that the
run ends at, which needs the file to end there. -/
theorem loop_bodyTurn (hstart : goesOn 0 = false) (before : List Token) (depth : Nat)
    (ts : List Token) (complaints : List Complaint) :
    loop (bodyTurn p goesOn) (before, depth) ⟨ts, complaints⟩ =
      let depth' := (cut p depth ts).1.foldl nest depth
      if goesOn depth' then ∅
      else {((before ++ (cut p depth ts).1, depth'), ⟨(cut p depth ts).2, complaints⟩)} := by
  induction ts generalizing before depth with
  | nil =>
      cases hgoes : goesOn depth with
      | true => simpa [cut, hgoes] using loop_bodyTurn_nil before hgoes complaints
      | false =>
          rw [loop_of_last (by rw [bodyTurn_nil, hgoes])]
          simp [cut, hgoes]
  | cons t ts ih =>
      have hturn := @bodyTurn_cons p goesOn before depth t ts complaints
      by_cases hend : depth = 0 ∧ p t = true
      · rw [loop_of_last (hturn.trans (if_pos hend))]
        simp [cut, hend, hstart]
      · rw [loop_of_next (hturn.trans (if_neg hend)), ih]
        simp [cut, hend]

theorem body_eq (hstart : goesOn 0 = false) :
    body (bodyTurn p goesOn) = endsUnless (fun tokens => goesOn (nesting tokens)) (run p) := by
  funext ⟨ts, complaints⟩
  have hloop := loop_bodyTurn (p := p) hstart [] 0 ts complaints
  have hvalue : (run p ts).value = (cut p 0 ts).1 := rfl
  rw [endsUnless, hvalue]
  split
  · exact bind_of_empty (hloop.trans (if_pos ‹_›))
  · refine (bind_of_ends (hloop.trans (if_neg ‹_›))).trans ?_
    simp [does, Cursor.behind, run, Pure.pure]

end

theorem block_eq : block = does Reader.block := by
  rw [block, blockTurn, body_eq rfl, ← does_eq_endsUnless fun _ => rfl]
  refine does_bind fun tokens => does_bind fun close? => ?_
  cases close? with
  | none => exact does_bind fun _ => does_pure none
  | some close => exact does_bind fun _ => does_pure _

/-- Whether the tokens of an expression leave a bracket open. -/
def isOpenBody (body : List Token × Token) : Bool :=
  nesting body.1 ≠ 0

/-- An expression without tokens leaves nothing open. -/
theorem any_isOpenBody_closeExpression (tokens ts : List Token) :
    (closeExpression tokens ts).value.any isOpenBody = decide (nesting tokens ≠ 0) := by
  have hvalue := Reader.value_closeExpression tokens ts
  split at hvalue
  · next hnil =>
      rw [Option.map_eq_none_iff.1 hvalue, hnil]
      rfl
  · obtain ⟨body, hbody, rfl⟩ := Option.map_eq_some_iff.1 hvalue
    rw [hbody]
    rfl

theorem expression_eq :
    expression = endsUnless (fun body? => body?.any isOpenBody) Reader.expression := by
  rw [expression, expressionTurn, body_eq rfl, Reader.expression_eq]
  refine endsUnless_bind any_isOpenBody_closeExpression fun tokens => ?_
  unfold closeExpression
  cases tokens.getLast? with
  | none => exact does_bind fun _ => does_bind fun _ => does_pure none
  | some last =>
      refine does_bind fun stop? => ?_
      cases stop? with
      | none => exact does_bind fun _ => does_pure _
      | some stop =>
          exact does_ite (does_bind fun _ => does_pure _) (does_bind fun _ => does_pure _)

theorem functionBody_eq :
    functionBody = endsUnless (fun b => !b.1 && b.2.any isOpenBody) Reader.functionBody := by
  refine does_bind_endsUnless fun braced => ?_
  cases braced with
  | true =>
      simp only [if_true, block_eq]
      rw [does_bind fun body? => does_bind fun _ => does_pure _]
      exact does_eq_endsUnless fun _ => rfl
  | false =>
      simp only [Bool.false_eq_true, if_false, expression_eq]
      exact endsUnless_bind (fun _ _ => rfl) fun _ => does_pure _

/-! ### Functions -/

theorem param_eq : param = does Reader.param := by
  rw [param, binding_eq]
  refine does_bind fun b? => ?_
  cases b? with
  | none => exact does_pure _
  | some b => exact does_bind fun _ => does_pure _

theorem params_eq : params = does Reader.params := by
  rw [params, param_eq, gathered_does Reader.advances_param]
  exact does_bind fun _ => does_ite (does_pure _) rfl

theorem returnType_eq : returnType = does Reader.returnType := by
  rw [returnType, typeRef_eq]
  exact does_bind fun _ => does_ite rfl (does_pure none)

theorem endsUnless_giveUp {isOpen : Option α → Bool} (h : isOpen none = false) :
    giveUp = endsUnless isOpen Reader.giveUp :=
  giveUp_eq.trans (does_eq_endsUnless fun _ => h)

theorem function_eq (keyword : Token) : function keyword =
    endsUnless (fun d? => d?.any FunctionDecl.isOpen) (Reader.function keyword) := by
  refine does_bind_endsUnless fun name? => ?_
  cases name? with
  | none => exact endsUnless_giveUp rfl
  | some name =>
      refine does_bind_endsUnless fun opening? => ?_
      cases opening? with
      | none => exact endsUnless_giveUp rfl
      | some opening =>
          simp only [params_eq]
          refine does_bind_endsUnless fun params => does_bind_endsUnless fun closing? => ?_
          cases closing? with
          | none => exact endsUnless_giveUp rfl
          | some closing =>
              simp only [returnType_eq]
              refine does_bind_endsUnless fun returns? => does_bind_endsUnless fun arrow? => ?_
              cases arrow? with
              | none => exact endsUnless_giveUp rfl
              | some arrow =>
                  simp only [functionBody_eq]
                  refine endsUnless_bind (fun b ts => ?_) fun b => ?_
                  · obtain ⟨block, _ | body⟩ := b
                    · simp [Pure.pure, Reader.pure]
                    · rfl
                  · obtain ⟨block, _ | body⟩ := b
                    · exact does_pure none
                    · exact does_pure _

/-! ### Files -/

theorem useClause_eq (keyword : Token) : useClause keyword = does (Reader.useClause keyword) := by
  rw [useClause, qualifiedName_eq]
  refine does_bind fun name? => ?_
  cases name? with
  | none => exact giveUp_eq
  | some name => exact does_bind fun _ => does_pure _

theorem packageClause_eq : packageClause = does Reader.packageClause := by
  rw [packageClause, qualifiedName_eq]
  exact does_bind fun _ => does_ite (does_bind fun _ => does_bind fun _ => does_pure _)
    (does_bind fun _ => does_pure none)

/-- Whether the item is a function left open. -/
def isOpenItem : UseClause ⊕ Declaration → Bool
  | .inr (.function d) => d.isOpen
  | .inr (.struct _) => false
  | .inl _ => false

theorem any_map_isOpenItem {o : Option α} {f : α → UseClause ⊕ Declaration}
    (h : ∀ a, isOpenItem (f a) = false) : (o.map f).any isOpenItem = false := by
  cases o with
  | none => rfl
  | some a => exact h a

theorem item_eq : item = endsUnless (fun o => o.1.any isOpenItem) Reader.item := by
  refine does_bind_endsUnless fun next? => ?_
  cases next? with
  | none => exact (does_pure _).trans (does_eq_endsUnless fun _ => rfl)
  | some t =>
      refine endsUnless_ite ?use (endsUnless_ite ?struct (endsUnless_ite ?function ?stray))
      case use =>
        rw [useClause_eq]
        refine (does_bind fun _ => does_bind fun _ => does_pure _).trans
          (does_eq_endsUnless fun ts => ?_)
        exact any_map_isOpenItem fun _ => rfl
      case struct =>
        rw [struct_eq]
        refine (does_bind fun _ => does_bind fun _ => does_pure _).trans
          (does_eq_endsUnless fun ts => ?_)
        exact any_map_isOpenItem fun _ => rfl
      case function =>
        rw [function_eq]
        refine does_bind_endsUnless fun _ => endsUnless_bind (fun d? ts => ?_) fun _ => does_pure _
        cases d? <;> rfl
      case stray =>
        rw [passTo_eq]
        exact (does_bind fun _ => does_bind fun _ => does_bind fun _ => does_pure _).trans
          (does_eq_endsUnless fun _ => rfl)

theorem any_isOpenItem (is : List (UseClause ⊕ Declaration)) :
    ((is.filterMap Sum.getRight?).filterMap Declaration.function?).any FunctionDecl.isOpen =
      is.any isOpenItem := by
  induction is with
  | nil => rfl
  | cons i is ih =>
      rcases i with c | d | d
      · exact ih
      · exact ih
      · exact congrArg (d.isOpen || ·) ih

/-- **Files are read as the readers read them, unless an expression is left open.** Then reading
does not end. -/
theorem tree_eq : tree = endsUnless (fun t => t.functions.any FunctionDecl.isOpen) Reader.tree := by
  rw [tree, packageClause_eq, item_eq, gathered_eq isOpenItem Reader.advances_item]
  exact does_bind_endsUnless fun package? =>
    endsUnless_bind (fun is _ => any_isOpenItem is) fun _ => does_pure _

end Course

/-! ### Turns that take a token -/

/-- The cursor has passed a token that the other one has in front of it, or several. -/
def Cursor.IsPast (c' c : Cursor) : Prop :=
  ∃ taken ≠ [], c.rest = taken ++ c'.rest

theorem Cursor.isPast_of_length_lt {c' c : Cursor} (hsuffix : c'.rest <:+ c.rest)
    (hlt : c'.rest.length < c.rest.length) : c'.IsPast c := by
  obtain ⟨taken, hsplit⟩ := hsuffix
  refine ⟨taken, ?_, hsplit.symm⟩
  rintro rfl
  simp [← hsplit] at hlt

namespace Course

variable {α σ : Type}

/-- From the cursor on, the turn comes to an end. It takes a token, or it is the last one. -/
def Advances (turn : Course (σ × Bool)) (c : Cursor) : Prop :=
  ∃ s more c', turn c = {((s, more), c')} ∧ (more = true → c'.IsPast c)

/-- The turns of all loops, wherever they start and whatever was gathered before, come to an end and
take a token or are the last one. -/
structure TurnsAdvance : Prop where
  /-- The items of a file, but for an expression that is left open. -/
  items : ∀ before c, (Reader.item c.rest).value.1.any isOpenItem = false →
    Advances (gather item before) c
  /-- Tokens passed over, to the next item or to the next field. -/
  skips : ∀ p u c, Advances (passOver p u) c
  /-- The fields of a structure. -/
  fields : ∀ before c, Advances (gather field before) c
  /-- The parameters of a function. -/
  params : ∀ before c, Advances (gather param before) c
  /-- The parts of a dotted name. -/
  names : ∀ before c, Advances (gather (does Reader.dotPart) before) c
  /-- The arguments of a type. -/
  arguments : ∀ before c, Advances (argumentTurn before) c
  /-- The way down from a type to its arguments. -/
  heads : ∀ c token bracket c', (some (token, some bracket), c') ∈ does Reader.typeHead c →
    c'.IsPast c
  /-- The tokens of a block. -/
  blocks : ∀ body c, Advances (blockTurn body) c
  /-- The tokens of an expression, up to the end of the file. -/
  expressions : ∀ body c, c.rest ≠ [] → Advances (expressionTurn body) c

section

variable {p : Reader (Option α × Bool)} {V : List Token → List Token → Option α × Bool → Prop}

theorem advances_gather (isOpen : α → Bool) (hp : p.Advances)
    (hdraws : ∀ file, p.Draws file (V file)) (before : List α) {c : Cursor}
    (hclosed : (p c.rest).value.1.any isOpen = false) :
    Advances (gather (endsUnless (fun o => o.1.any isOpen) p) before) c := by
  have hturn := gather_apply isOpen (p := p) (c := c) before rfl
  refine ⟨_, _, _, hturn.trans (if_neg (by simp [hclosed])), fun hmore => ?_⟩
  exact Cursor.isPast_of_length_lt (hdraws c.rest).rest_suffix (hp c.rest hmore)

theorem advances_gather_does (hp : p.Advances) (hdraws : ∀ file, p.Draws file (V file))
    (before : List α) (c : Cursor) : Advances (gather (does p) before) c := by
  have h := advances_gather (fun _ => false) hp hdraws before (c := c) (by simp)
  rwa [← does_eq_endsUnless (by simp)] at h

end

theorem advances_passOver (p : Token → Bool) (u : Unit) (c : Cursor) :
    Advances (passOver p u) c := by
  obtain ⟨_ | ⟨t, ts⟩, complaints⟩ := c
  · exact ⟨_, _, _, passOver_nil p complaints, nofun⟩
  · refine ⟨_, _, _, passOver_cons p t ts complaints, fun hmore => ⟨[t], by simp, ?_⟩⟩
    simp_all

theorem advances_argumentTurn (before : List TypeRef × Token) (c : Cursor) :
    Advances (argumentTurn before) c := by
  have htype : (Reader.typeRef c.rest).rest <:+ c.rest := Reader.draws_typeRef.rest_suffix
  have hmark := Reader.suffix_mark "," (Reader.typeRef c.rest).rest
  have hturn : argumentTurn before c = _ :=
    (bind_of_ends (typeRef_apply c)).trans (bind_of_ends rfl)
  cases hcomma : (Reader.mark "," (c.behind (Reader.typeRef c.rest)).rest).value with
  | none =>
      rw [hcomma] at hturn
      exact ⟨_, _, _, hturn, nofun⟩
  | some comma =>
      rw [hcomma] at hturn
      refine ⟨_, _, _, hturn, fun _ => Cursor.isPast_of_length_lt (hmark.trans htype) ?_⟩
      exact (Reader.length_mark_lt hcomma).trans_le htype.length_le

theorem isPast_of_typeHead {c c' : Cursor} {token bracket : Token}
    (h : (some (token, some bracket), c') ∈ does Reader.typeHead c) : c'.IsPast c := by
  obtain ⟨hvalue, rfl⟩ := Prod.mk.inj h
  exact Cursor.isPast_of_length_lt (Reader.suffix_typeHead c.rest)
    (Reader.length_typeHead_lt hvalue.symm)

/-- At the end of the file, a turn of a loop over a body is the last one, unless the loop goes on
there. -/
theorem advances_bodyTurn {p : Token → Bool} {goesOn : Nat → Bool} {body : List Token × Nat}
    {c : Cursor} (h : c.rest = [] → goesOn body.2 = false) :
    Advances (bodyTurn p goesOn body) c := by
  obtain ⟨_ | ⟨t, ts⟩, complaints⟩ := c
  · refine ⟨_, _, _, bodyTurn_nil body.1 body.2 complaints, ?_⟩
    simp [h rfl]
  · have hturn := @bodyTurn_cons p goesOn body.1 body.2 t ts complaints
    split at hturn
    · exact ⟨_, _, _, hturn, nofun⟩
    · exact ⟨_, _, _, hturn, fun _ => ⟨[t], by simp, rfl⟩⟩

theorem turnsAdvance : TurnsAdvance where
  items before _ := item_eq ▸
    advances_gather isOpenItem Reader.advances_item (fun _ => Reader.draws_item) before
  skips := advances_passOver
  fields := field_eq ▸ advances_gather_does Reader.advances_field fun _ => Reader.draws_field
  params := param_eq ▸ advances_gather_does Reader.advances_param fun _ => Reader.draws_param
  names := advances_gather_does Reader.advances_dotPart fun _ => Reader.draws_dotPart
  arguments := advances_argumentTurn
  heads _ _ _ _ := isPast_of_typeHead
  blocks _ _ := advances_bodyTurn fun _ => rfl
  expressions _ _ hrest := advances_bodyTurn fun hnil => absurd hnil hrest

end Course

/-! ### Texts -/

/-- An expression of the tree reaches to the end of the tokens with a bracket open. -/
def Tree.LeavesOpen (t : Tree) (tokens : List Token) : Prop :=
  ∃ d ∈ t.functions, d.block = false ∧ d.body <:+ tokens ∧ nesting d.body ≠ 0

instance (t : Tree) (tokens : List Token) : Decidable (t.LeavesOpen tokens) :=
  inferInstanceAs (Decidable (∃ d ∈ t.functions, _))

/-- In the tree of a file, whatever is left open reaches to its end. -/
theorem Tree.leavesOpen_iff (ts : List Token) : (readTree ts).1.LeavesOpen ts ↔
    (readTree ts).1.functions.any FunctionDecl.isOpen = true := by
  simp only [List.any_eq_true, LeavesOpen, FunctionDecl.isOpen, Bool.and_eq_true,
    Bool.not_eq_true', decide_eq_true_iff]
  refine exists_congr fun d => and_congr_right fun hd => and_congr_right fun hblock => ?_
  refine ⟨fun h => h.2, fun hopen => ⟨Reader.suffix_of_isOpen hd ?_, hopen⟩⟩
  simp [FunctionDecl.isOpen, hblock, hopen]

namespace Course

/-- **What comes of reading a text with plain loops.** The turns of all loops take a token or are
the last one, up to the end of the file. So reading comes to an end, and to one only, unless an
expression has a bracket open at the end of the file, and then to none. Where it ends, it answers
with the tree of the text and its errors, and no token is left. -/
theorem parse_ends_unless_open : TurnsAdvance ∧ ∀ text : String, parse text =
    if (Npl.parse text).1.LeavesOpen (TokenList.ofText text).tokens then ∅
    else {(Npl.parse text, [])} := by
  refine ⟨turnsAdvance, fun text => ?_⟩
  have hrest := Reader.rest_tree (TokenList.ofText text).tokens
  have hopen := Tree.leavesOpen_iff (TokenList.ofText text).tokens
  simp only [Npl.parse, readTree] at hopen ⊢
  simp only [parse, tree_eq, endsUnless, hopen]
  split
  · exact Set.image_empty _
  · simp [does, Cursor.behind, hrest]

/-- A parenthesis that is not closed before the file ends. -/
example : (Npl.parse "package p function f() -> (1;").1.LeavesOpen
    (TokenList.ofText "package p function f() -> (1;").tokens := by
  decide +kernel

end Course

end Npl
