import Npl.Proofs.Syntax.SourceOrder

/-!
# Turns that take something

Readers are made so that they end: a repetition is cut short by a turn that asks for another one and
has taken nothing, and a comma between types counts only if it leaves fewer tokens. Neither is ever
needed. Wherever the grammar asks for another turn, the turn has taken a token, and this holds on
every path of recovery too: a field that could not be read is skipped over by at least one token,
and a parameter that could not be read is the last one. So repetitions end where their turns say so,
and a file is read to its end.

The one run of tokens that may meet the end of the file at any depth is the body of an expression. A
body that leaves a bracket open reaches to the end of the file.

## Main definitions

* `Reader.Advances` — a turn that takes a token or is the last one.
* `FunctionDecl.isOpen` — the function is an expression with a bracket that is not closed.

## Main results

* `Reader.advances_field`, `Reader.advances_item`, … — the turns of the repetitions in the grammar.
* `Reader.typeRef_eq`, `Reader.argumentsBehind_eq` — types without a safeguard.
* `Reader.rest_tree` — a file is read to its end.
* `Reader.suffix_of_isOpen` — an expression that is left open reaches to the end of the file.
-/

namespace Npl

/-- If the turn of a repetition asks for another one, it leaves fewer tokens than `ts`. -/
def Reading.Advances {α : Type} (ts : List Token) (r : Reading (Option α × Bool)) : Prop :=
  r.value.2 = true → r.rest.length < ts.length

namespace Reader

variable {α β : Type} {ts us : List Token}

/-- Wherever the turn asks for another one, it has taken a token. -/
def Advances (turn : Reader (Option α × Bool)) : Prop :=
  ∀ ts, (turn ts).Advances ts

/-! ### Taking tokens -/

theorem Draws.length_rest_le {V : List Token → α → Prop} {p : Reader α} (hp : p.Draws ts V) :
    (p ts).rest.length ≤ ts.length :=
  hp.rest_suffix.length_le

theorem skipIf_eq_or (p : Token → Bool) (ts : List Token) :
    skipIf p ts = ⟨true, [], ts.tail⟩ ∨ skipIf p ts = ⟨false, [], ts⟩ := by
  fun_cases skipIf p ts <;> simp

theorem length_skipIf_lt {p : Token → Bool} (h : (skipIf p ts).value = true) :
    (skipIf p ts).rest.length < ts.length := by
  revert h
  fun_cases skipIf p ts <;> simp [*]

theorem length_skipTo_lt {p : Token → Bool} {t : Token} (h : p t = false) (ts : List Token) :
    (skipTo p (t :: ts)).rest.length < (t :: ts).length := by
  have hle := (List.dropWhile_sublist (fun t => !p t) (l := ts)).length_le
  simp only [skipTo, List.dropWhile_cons, h, Bool.not_false, if_true, List.length_cons]
  omega

/-- Takes the next token if it is the symbol written `s`. -/
def mark (s : String) : Reader (Option Token)
  | [] => ⟨none, [], []⟩
  | t :: ts => if t.isSymbol s then ⟨some t, [], ts⟩ else ⟨none, [], t :: ts⟩

theorem suffix_mark (s : String) (ts : List Token) : (mark s ts).rest <:+ ts := by
  fun_cases mark s ts <;> simp

theorem length_mark_lt {s : String} {t : Token} (h : (mark s ts).value = some t) :
    (mark s ts).rest.length < ts.length := by
  revert h
  fun_cases mark s ts <;> simp

/-! ### The turns of repetitions -/

/-- A turn that is the last one. -/
theorem advances_last (item? : Option α) : ((Pure.pure (item?, false) : Reader _) us).Advances ts :=
  fun h => Bool.noConfusion h

/-- What a turn does after a first reader, which leaves no more tokens than there were. -/
theorem advances_bind {p : Reader β} {f : β → Reader (Option α × Bool)}
    (hle : (p us).rest.length ≤ ts.length)
    (h : ∀ b rest, rest.length ≤ ts.length → (f b rest).Advances ts) :
    ((p >>= f) us).Advances ts :=
  h _ _ hle

/-- What a turn does that takes the next token first, if it has a property. -/
theorem advances_skipIf_bind {p : Token → Bool} {f : Bool → Reader (Option α × Bool)} {t : Token}
    (htaken : (f true us).Advances ts) (hleft : p t = false → (f false (t :: us)).Advances ts) :
    ((skipIf p >>= f) (t :: us)).Advances ts := by
  change (f (skipIf p (t :: us)).value (skipIf p (t :: us)).rest).Advances ts
  rw [skipIf]
  cases ht : p t with
  | true => exact htaken
  | false => exact hleft ht

theorem advances_dotPart : Advances dotPart := by
  intro ts
  cases ts with
  | nil => exact advances_last none
  | cons dot ts =>
      change ((if dot.isSymbol "." then _ else _ : Reader _) (dot :: ts)).Advances _
      split
      · exact fun _ => Nat.lt_succ_of_le draws_name.length_rest_le
      · exact advances_last none

/-- A parameter that another one follows has a comma behind it. -/
theorem advances_param : Advances param := by
  intro ts
  refine advances_bind draws_binding.length_rest_le fun b? us hle => ?_
  cases b? with
  | none => exact advances_last none
  | some b => exact fun hcomma => (length_skipIf_lt hcomma).trans_le hle

/-- A field need not take anything. If it does not, what stands in its place is skipped. -/
theorem advances_field : Advances field := by
  intro ts
  refine advances_bind draws_fieldsEnd.length_rest_le fun ends us hle => ?_
  split
  · exact advances_last none
  refine advances_bind (draws_binding.length_rest_le.trans hle) fun binding? us hle => ?_
  cases us with
  | nil => exact advances_last binding?
  | cons t us =>
      refine advances_skipIf_bind (fun _ => hle) fun hcomma => ?_
      change ((if (t.isSymbol "\x7d" || t.opensItem) = true then _ else _ : Reader _)
        (t :: us)).Advances ts
      split
      · exact advances_last binding?
      · next hends =>
          -- Neither a comma nor the end of the fields comes next, so at least one token is skipped.
          have hskipped : (skipTo (fun t => t.isSymbol "," || t.isSymbol "\x7d" || t.opensItem)
              (t :: us)).rest.length < ts.length :=
            (length_skipTo_lt (by simpa [hcomma] using hends) us).trans_le hle
          have hcomma_le : ∀ vs, (skipIf (·.isSymbol ",") vs).rest.length ≤ vs.length :=
            fun _ => (draws_skipIf _).length_rest_le
          split
          · exact fun _ => (hcomma_le _).trans_lt hskipped
          · exact fun _ => (hcomma_le _).trans_lt hskipped

theorem advances_item : Advances item := by
  intro ts
  cases ts with
  | nil => exact advances_last none
  | cons t ts =>
      change ((if t.isKeyword "use" then _ else _ : Reader _) (t :: ts)).Advances _
      split
      · next huse => exact fun _ => Nat.lt_succ_of_le (draws_useClause huse).length_rest_le
      split
      · next hstruct => exact fun _ => Nat.lt_succ_of_le (draws_struct hstruct).length_rest_le
      split
      · next hfunction => exact fun _ => Nat.lt_succ_of_le (draws_function hfunction).length_rest_le
      · exact fun _ => Nat.lt_succ_of_le (draws_skipTo Token.opensItem).length_rest_le

/-! ### Types -/

/-- Takes the name of a type, and the angle bracket behind it if arguments follow. -/
def typeHead : Reader (Option (Token × Option Token)) := do
  match ← name with
  | none => return none
  | some token => return some (token, ← mark "<")

theorem suffix_typeHead (ts : List Token) : (typeHead ts).rest <:+ ts := by
  have hsuffix : (name ts).rest <:+ ts := draws_name.rest_suffix
  simp only [typeHead, Bind.bind, Reader.bind]
  cases (name ts).value with
  | none => exact hsuffix
  | some token => exact (suffix_mark "<" _).trans hsuffix

/-- A type with arguments has taken something before the first of them. -/
theorem length_typeHead_lt {token bracket : Token}
    (h : (typeHead ts).value = some (token, some bracket)) :
    (typeHead ts).rest.length < ts.length := by
  have hle : (name ts).rest.length ≤ ts.length := draws_name.length_rest_le
  rcases hname : name ts with ⟨_ | token', complaints, mid⟩
  · simp [typeHead, Bind.bind, Reader.bind, hname, Pure.pure, Reader.pure] at h
  · rw [hname] at hle
    simp only [typeHead, Bind.bind, Reader.bind, hname] at h ⊢
    have hmark := congrArg (Option.map Prod.snd) h
    exact (length_mark_lt (Option.some.inj hmark)).trans_le hle

/-- Takes types with commas between them behind others; the second component is the last token
taken. -/
def argumentsBehind (before : List TypeRef × Token) : Reader (List TypeRef × Token) := do
  let (arguments, last) ← typeArguments before.2
  return (before.1 ++ arguments, last)

/-- **Types in a row end where no comma follows.** Behind a comma there are always fewer tokens, so
the comma alone decides. -/
theorem argumentsBehind_eq (before : List TypeRef × Token) :
    argumentsBehind before = (do
      let type? ← typeRef
      match ← mark "," with
      | some comma => argumentsBehind (before.1 ++ type?.toList, comma)
      | none => return (before.1 ++ type?.toList, (type?.map TypeRef.stop).getD before.2)) := by
  funext ts
  have hle : (typeRef ts).rest.length ≤ ts.length := draws_typeRef.length_rest_le
  simp only [argumentsBehind, Bind.bind, Reader.bind]
  rw [typeArguments]
  rcases htype : typeRef ts with ⟨type?, complaints, rest⟩
  rw [htype] at hle
  cases rest with
  | nil => simp [mark, Pure.pure, Reader.pure]
  | cons comma more =>
      have hlt : more.length < ts.length := hle
      by_cases hcomma : comma.isSymbol ","
      · simp [mark, hcomma, hlt, Pure.pure, Reader.pure, Reader.bind]
      · simp [mark, hcomma, Pure.pure, Reader.pure]

theorem argumentsBehind_nil (bracket : Token) :
    argumentsBehind ([], bracket) = typeArguments bracket := by
  funext ts
  simp [argumentsBehind, Bind.bind, Reader.bind, Pure.pure, Reader.pure]

/-- A type is a name, and types in a row if an angle bracket follows. -/
theorem typeRef_eq : typeRef = (do
    match ← typeHead with
    | none => return none
    | some (token, none) => return some (.mk token [] token)
    | some (token, some bracket) =>
      let (arguments, last) ← argumentsBehind ([], bracket)
      let close ← symbol ">"
      return some (.mk token arguments (close.getD last)) : Reader (Option TypeRef)) := by
  funext ts
  simp only [typeHead, Bind.bind, Reader.bind, argumentsBehind_nil]
  rcases hname : name ts with ⟨token?, complaints, mid⟩
  cases token? with
  | none =>
      rw [typeRef]
      split <;> simp_all [Pure.pure, Reader.pure]
  | some token =>
      rw [typeRef_of_name hname]
      cases mid with
      | nil => simp [mark, Pure.pure, Reader.pure, Reader.bind]
      | cons bracket inner =>
          by_cases hbracket : bracket.isSymbol "<"
          · simp [mark, hbracket, Pure.pure, Reader.pure, Reader.bind]
          · simp [mark, hbracket, Pure.pure, Reader.pure, Reader.bind]

/-! ### Files -/

/-- As long as a token is left, another item is asked for. -/
theorem more_of_item (t : Token) (ts : List Token) : (item (t :: ts)).value.2 = true := by
  change ((if t.isKeyword "use" then _ else _ : Reader (Option (UseClause ⊕ Declaration) × Bool))
    (t :: ts)).value.2 = true
  split
  · rfl
  split
  · rfl
  split
  · rfl
  · rfl

/-- The items of a file end with it. -/
theorem rest_items_item (ts : List Token) : (items item ts).rest = [] := by
  fun_induction items item ts with
  | case1 ts first hgo others ih => exact ih
  | case2 ts first hend =>
      cases ts with
      | nil => rfl
      | cons t ts =>
          have hmore := more_of_item t ts
          exact absurd ⟨hmore, advances_item _ hmore⟩ hend

/-- A file is read to its end. -/
theorem rest_tree (ts : List Token) : (tree ts).rest = [] :=
  rest_items_item _

end Reader

/-! ### Expressions that are left open -/

/-- How deep in brackets the tokens of a body end. -/
def nesting (body : List Token) : Nat :=
  body.foldl Reader.nest 0

/-- Whether the function is an expression with a bracket that is not closed. -/
def FunctionDecl.isOpen (d : FunctionDecl) : Bool :=
  !d.block && nesting d.body ≠ 0

namespace Reader

variable {α β : Type} {ts : List Token}

/-- Takes the semicolon behind the tokens of an expression. -/
def closeExpression (tokens : List Token) : Reader (Option (List Token × Token)) := do
  match tokens.getLast? with
  | none =>
    complain (.mismatched .expression)
    let _ ← skipIf (·.isSymbol ";")
    return none
  | some last =>
    match ← peek with
    | some stop =>
      if stop.isSymbol ";" then
        skip
        return some (tokens, stop)
      complain (.missing ";")
      return some (tokens, last)
    | none =>
      complain (.missing ";")
      return some (tokens, last)

theorem expression_eq :
    expression = run (fun t => t.isSymbol ";" || t.opensItem) >>= closeExpression :=
  rfl

/-- The body of an expression is made of its tokens, if there are any. -/
theorem value_closeExpression (tokens : List Token) (ts : List Token) :
    (closeExpression tokens ts).value.map Prod.fst = if tokens = [] then none else some tokens := by
  unfold closeExpression
  cases hlast : tokens.getLast? with
  | none =>
      rw [if_pos (List.getLast?_eq_none_iff.1 hlast)]
      rfl
  | some last =>
      have hne : tokens ≠ [] := by
        rintro rfl
        simp at hlast
      rw [if_neg hne]
      cases ts with
      | nil => rfl
      | cons stop ts =>
          change ((if stop.isSymbol ";" then _ else _ : Reader (Option (List Token × Token)))
            (stop :: ts)).value.map Prod.fst = _
          split
          · rfl
          · rfl

/-- An expression that leaves a bracket open is all there is. -/
theorem eq_of_expression {body : List Token} {stop : Token}
    (h : (expression ts).value = some (body, stop)) (hopen : nesting body ≠ 0) : body = ts := by
  have hcut := cut_append (fun t => t.isSymbol ";" || t.opensItem) 0 ts
  have hrest := cut_rest (fun t => t.isSymbol ";" || t.opensItem) 0 ts
  have hbody : (expression ts).value.map Prod.fst = _ := value_closeExpression _ _
  rw [h, Option.map_some] at hbody
  split at hbody
  · simp at hbody
  · obtain rfl := Option.some.inj hbody
    rcases hrest with hnil | ⟨_, _, -, -, hclosed⟩
    · rwa [hnil, List.append_nil] at hcut
    · exact absurd hclosed hopen

/-- The body of a function that is no block is read like an expression. -/
theorem eq_of_functionBody {body : List Token} {stop : Token}
    (h : (functionBody ts).value = (false, some (body, stop))) (hopen : nesting body ≠ 0) :
    body = ts := by
  simp only [functionBody, Bind.bind, Reader.bind] at h
  obtain htaken | hleft := skipIf_eq_or (·.isSymbol "\x7b") ts
  · rw [htaken] at h
    exact Bool.noConfusion (Prod.mk.inj h).1
  · rw [hleft] at h
    exact eq_of_expression (Prod.mk.inj h).2 hopen

/-- The functions that the reader reads, where they are left open, reach to the end of the tokens;
`holds` tells which they are. -/
def Trails (holds : α → FunctionDecl → Prop) (p : Reader α) : Prop :=
  ∀ ts d, holds (p ts).value d → d.isOpen = true → d.body <:+ ts

section

variable {holds : α → FunctionDecl → Prop}

theorem Trails.bind {V : List Token → β → Prop} {p : Reader β} {f : β → Reader α}
    (hp : ∀ file, p.Draws file V) (hf : ∀ b, (f b).Trails holds) : (p >>= f).Trails holds :=
  fun ts d hd hopen => (hf _ _ d hd hopen).trans (hp ts).rest_suffix

theorem Trails.ite {c : Prop} [Decidable c] {p q : Reader α} (hp : p.Trails holds)
    (hq : q.Trails holds) : (if c then p else q).Trails holds := by
  split
  · exact hp
  · exact hq

theorem Trails.peek_bind {f : Option Token → Reader α} (hf : ∀ t?, (f t?).Trails holds) :
    (peek >>= f).Trails holds :=
  fun ts => hf _ ts

/-- A reader that reads no function. -/
theorem Trails.of_not {p : Reader α} (h : ∀ ts d, ¬ holds (p ts).value d) : p.Trails holds :=
  fun ts d hd => absurd hd (h ts d)

end

theorem trails_giveUp : (giveUp : Reader (Option FunctionDecl)).Trails fun d? d => d? = some d :=
  .of_not fun _ _ => Option.some_ne_none _ ∘ Eq.symm

theorem trails_function (keyword : Token) :
    (function keyword).Trails fun d? d => d? = some d := by
  refine .bind (fun _ => draws_name) fun name? => ?_
  cases name? with
  | none => exact trails_giveUp
  | some name =>
      refine .bind (fun _ => draws_symbol _) fun opening? => ?_
      cases opening? with
      | none => exact trails_giveUp
      | some opening =>
          refine .bind (fun _ => draws_params) fun params =>
            .bind (fun _ => draws_symbol _) fun closing? => ?_
          cases closing? with
          | none => exact trails_giveUp
          | some closing =>
              refine .bind (fun _ => draws_returnType) fun returns? =>
                .bind (fun _ => draws_symbol _) fun arrow? => ?_
              cases arrow? with
              | none => exact trails_giveUp
              | some arrow =>
                  intro ts d hd hopen
                  simp only [Bind.bind, Reader.bind] at hd
                  rcases hbody : (functionBody ts).value with ⟨block, _ | ⟨body, stop⟩⟩
                  · rw [hbody] at hd
                    exact absurd hd.symm (Option.some_ne_none d)
                  · rw [hbody] at hd
                    obtain rfl := Option.some.inj hd
                    obtain ⟨rfl, hnested⟩ : block = false ∧ nesting body ≠ 0 := by
                      simpa [FunctionDecl.isOpen] using hopen
                    exact eq_of_functionBody hbody hnested ▸ List.suffix_rfl

theorem trails_item : item.Trails fun o d => o.1 = some (.inr (.function d)) := by
  refine .peek_bind fun t? => ?_
  cases t? with
  | none => exact .of_not fun _ _ => Option.some_ne_none _ ∘ Eq.symm
  | some t =>
      refine .ite ?use (.ite ?struct (.ite ?function ?stray))
      case use =>
        refine .of_not fun ts d hd => ?_
        obtain ⟨c, -, hc⟩ := Option.map_eq_some_iff.1 hd
        exact Sum.inl_ne_inr hc
      case struct =>
        refine .of_not fun ts d hd => ?_
        obtain ⟨d', -, hd'⟩ := Option.map_eq_some_iff.1 hd
        exact Declaration.noConfusion (Sum.inr.inj hd')
      case function =>
        refine .bind (fun _ => draws_skip) fun _ ts d hd hopen => trails_function t ts d ?_ hopen
        obtain ⟨d', hread, hd'⟩ := Option.map_eq_some_iff.1 hd
        exact hread.trans (congrArg some (Declaration.function.inj (Sum.inr.inj hd')))
      case stray => exact .of_not fun _ _ => Option.some_ne_none _ ∘ Eq.symm

theorem trails_items : (items item).Trails fun is d => .inr (.function d) ∈ is := by
  intro ts d hd hopen
  fun_induction items item ts with
  | case1 ts first hgo others ih =>
      obtain hfirst | hothers := List.mem_append.1 hd
      · exact trails_item ts d (Option.mem_toList.1 hfirst) hopen
      · exact (ih hothers).trans draws_item.rest_suffix
  | case2 ts first hend => exact trails_item ts d (Option.mem_toList.1 hd) hopen

/-- **An expression that is left open reaches to the end of the file.** -/
theorem suffix_of_isOpen {d : FunctionDecl} (hd : d ∈ (tree ts).value.functions)
    (hopen : d.isOpen = true) : d.body <:+ ts := by
  obtain ⟨decl, hdecl, hd⟩ := List.mem_filterMap.1 hd
  obtain ⟨i, hi, hright⟩ := List.mem_filterMap.1 hdecl
  obtain rfl : i = .inr (.function d) := by
    cases i <;> cases decl <;> simp_all [Declaration.function?]
  exact (trails_items _ d hi hopen).trans draws_packageClause.rest_suffix

end Reader

end Npl
