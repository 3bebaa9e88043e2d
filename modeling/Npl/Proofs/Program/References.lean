import Mathlib.Data.List.Perm.Basic
import Npl.Proofs.Program.Pointing

/-!
# References

What a unit refers to is found by going through its type references level by level, and through the
bodies of its functions token by token. Here it is said without going through anything: which types
are nested in a reference, which places of a body are calls, and which names a body declares.

## Main definitions

* `TypeRef.nested` — a reference and all references inside it.
* `Body.calls` — the calls of names that are no members.
* `Body.DeclaresVariable`, `Body.DeclaresParam` — the names that a body declares.

## Main results

* `TypeRef.levels_perm_nested` — level by level each reference is met once.
* `Body.freeCalls_eq_calls`, `Body.mem_declaredNames_iff` — token by token everything is found.
-/

namespace Npl

/-! ### Types -/

/-- A type reference and all references in its arguments, each in front of those inside it. -/
def TypeRef.nested : TypeRef → List TypeRef
  | mk token arguments stop => mk token arguments stop :: arguments.flatMap nested

theorem TypeRef.nested_eq (r : TypeRef) : r.nested = r :: r.arguments.flatMap nested := by
  cases r with | mk token arguments stop => simp [nested, TypeRef.arguments]

/-- Going through the references level by level takes each of them once, however deep. -/
theorem TypeRef.levels_perm_nested (refs : List TypeRef) :
    (levels refs).Perm (refs.flatMap nested) := by
  fun_induction levels refs with
  | case1 => exact .nil
  | case2 r refs ih =>
      have hinner : ((r :: refs).flatMap arguments).flatMap nested =
          (r :: refs).flatMap fun q => q.arguments.flatMap nested := List.flatMap_assoc ..
      have hsplit := List.map_append_flatMap_perm (r :: refs) id
        fun q => q.arguments.flatMap nested
      rw [List.map_id] at hsplit
      rw [hinner] at ih
      simpa only [id, ← nested_eq] using (ih.append_left (r :: refs)).trans hsplit

/-! ### Calls -/

namespace Body

/-- Whether the token at a place of a body calls a function by a name that is no member: a name, with
an opening parenthesis behind it and no dot before it. -/
def callsAt (body : List Token) (i : Nat) : Bool :=
  body[i]?.any Token.isIdentifier && body[i + 1]?.any (·.isSymbol "(") &&
    !(0 < i && body[i - 1]?.any (·.isSymbol "."))

/-- The tokens of a body that call a function by a name that is no member. -/
def calls (body : List Token) : List Token :=
  ((List.range body.length).filter (callsAt body)).filterMap (body[·]?)

/-- The same, where `member` tells whether a dot stands before the first token. -/
def callsAtFrom (member : Bool) (body : List Token) (i : Nat) : Bool :=
  body[i]?.any Token.isIdentifier && body[i + 1]?.any (·.isSymbol "(") &&
    !(if i = 0 then member else body[i - 1]?.any (·.isSymbol "."))

/-- The first token calls a function or does not, and the others follow it. -/
theorem filter_callsAtFrom_cons (member : Bool) (t : Token) (ts : List Token) :
    ((List.range (t :: ts).length).filter (callsAtFrom member (t :: ts))).filterMap ((t :: ts)[·]?) =
      (if t.isIdentifier && ts.head?.any (·.isSymbol "(") && !member then [t] else []) ++
        ((List.range ts.length).filter (callsAtFrom (t.isSymbol ".") ts)).filterMap (ts[·]?) := by
  have hbehind : callsAtFrom member (t :: ts) ∘ Nat.succ = callsAtFrom (t.isSymbol ".") ts := by
    funext i
    cases i <;> simp [callsAtFrom]
  have hfirst : callsAtFrom member (t :: ts) 0 =
      (t.isIdentifier && ts.head?.any (·.isSymbol "(") && !member) := by
    cases ts <;> simp [callsAtFrom]
  rw [List.length_cons, List.range_succ_eq_map, List.filter_cons, List.filter_map, hbehind, hfirst]
  split
  · simp [List.filterMap_map]
  · simp [List.filterMap_map]

/-- Going through a body token by token finds the calls, whatever stands before it. -/
theorem freeCallsFrom_eq (member : Bool) (body : List Token) :
    freeCallsFrom member body =
      ((List.range body.length).filter (callsAtFrom member body)).filterMap (body[·]?) := by
  fun_induction freeCallsFrom member body with
  | case1 member t u ts others hcall ih =>
      rw [filter_callsAtFrom_cons, ← ih, List.head?_cons, Option.any_some, if_pos hcall]
      rfl
  | case2 member t u ts others hcall ih =>
      rw [filter_callsAtFrom_cons, ← ih, List.head?_cons, Option.any_some, if_neg hcall]
      rfl
  | case3 body member hshort =>
      rcases body with - | ⟨t, - | ⟨u, ts⟩⟩
      · rfl
      · simp [callsAtFrom]
      · exact absurd rfl (hshort t u ts)

/-- Going through a body token by token finds the calls. -/
theorem freeCalls_eq_calls (body : List Token) : freeCalls body = calls body := by
  have hfirst : callsAtFrom false body = callsAt body := by
    funext i
    cases i <;> simp [callsAtFrom, callsAt]
  rw [freeCalls, freeCallsFrom_eq, hfirst, calls]

variable {t : Token} {ts body : List Token} {name : String}

/-! ### Declared names -/

/-- The name stands before a colon, and no closing parenthesis comes before it. -/
def ParamAhead (ts : List Token) (name : String) : Prop :=
  ∃ inner t colon, inner ++ [t, colon] <+: ts ∧ (∀ other ∈ inner, other.isSymbol ")" = false) ∧
    t.isIdentifier = true ∧ t.text = name ∧ colon.isSymbol ":" = true

/-- The name is that of a variable that the body declares. -/
def DeclaresVariable (body : List Token) (name : String) : Prop :=
  ∃ keyword t rest, keyword :: t :: rest <:+ body ∧ keyword.isKeyword "var" = true ∧
    t.isIdentifier = true ∧ t.text = name

/-- The name is that of a parameter of a function inside the body: it stands before a colon, and
between the parenthesis that opens behind a keyword `function` and the next one that closes. -/
def DeclaresParam (body : List Token) (name : String) : Prop :=
  ∃ keyword bracket rest, keyword :: bracket :: rest <:+ body ∧
    keyword.isKeyword "function" = true ∧ bracket.isSymbol "(" = true ∧ ParamAhead rest name

/-- The name stands first, or ahead of a token that closes nothing. -/
theorem paramAhead_cons_iff :
    ParamAhead (t :: ts) name ↔
      (t.isIdentifier = true ∧ t.text = name ∧ ts.head?.any (·.isSymbol ":") = true) ∨
        t.isSymbol ")" = false ∧ ParamAhead ts name := by
  constructor
  · rintro ⟨inner, u, colon, hfirst, hinner, hname⟩
    cases inner with
    | nil =>
        obtain ⟨rfl, hcolon⟩ := List.cons_prefix_cons.1 hfirst
        obtain ⟨rest, rfl⟩ := hcolon
        exact .inl ⟨hname.1, hname.2.1, by simpa using hname.2.2⟩
    | cons v inner =>
        obtain ⟨rfl, hbehind⟩ := List.cons_prefix_cons.1 hfirst
        rw [List.forall_mem_cons] at hinner
        exact .inr ⟨hinner.1, inner, u, colon, hbehind, hinner.2, hname⟩
  · rintro (⟨hidentifier, htext, hcolon⟩ | ⟨hopen, inner, u, colon, hfirst, hinner, hname⟩)
    · cases ts with
      | nil => simp at hcolon
      | cons colon rest =>
          exact ⟨[], t, colon, ⟨rest, rfl⟩, by simp, hidentifier, htext, by simpa using hcolon⟩
    · exact ⟨t :: inner, u, colon, List.cons_prefix_cons.2 ⟨rfl, hfirst⟩,
        List.forall_mem_cons.2 ⟨hopen, hinner⟩, hname⟩

theorem length_lt_two (h : ∀ t u rest, ts = t :: u :: rest → False) : ts.length < 2 := by
  match ts, h with
  | [], _ => simp
  | [t], _ => simp
  | t :: u :: rest, h => exact absurd rfl (h t u rest)

/-- The parameters are the names before a colon, up to the first closing parenthesis. -/
theorem mem_lambdaParams_iff : name ∈ lambdaParams ts ↔ ParamAhead ts name := by
  fun_induction lambdaParams ts with
  | case1 t u ts hclosing =>
      have hidentifier : t.isIdentifier = false := by
        cases h : t.isIdentifier with
        | false => rfl
        | true => simp_all [Token.isIdentifier, Token.isSymbol]
      simp [paramAhead_cons_iff, hclosing, hidentifier]
  | case2 t u ts hclosing hparam ih =>
      rw [List.mem_cons, ih, paramAhead_cons_iff (t := t)]
      simp only [Bool.and_eq_true] at hparam
      simp [hparam, hclosing, @eq_comm _ name]
  | case3 t u ts hclosing hparam ih =>
      rw [ih, paramAhead_cons_iff (t := t)]
      simp only [Bool.and_eq_true, not_and] at hparam
      simp only [hclosing, List.head?_cons, Option.any_some, true_and]
      exact (or_iff_right fun h => hparam h.1 h.2.2).symm
  | case4 ts hshort =>
      have hlength := length_lt_two hshort
      refine iff_of_false (by simp) ?_
      rintro ⟨inner, u, colon, hfirst, -⟩
      have := hfirst.length_le
      simp only [List.length_append, List.length_cons] at this
      omega

/-- A variable is declared first, or further behind. -/
theorem declaresVariable_cons_iff :
    DeclaresVariable (t :: ts) name ↔
      (t.isKeyword "var" = true ∧ ts.head?.any (fun u => u.isIdentifier && u.text = name) = true) ∨
        DeclaresVariable ts name := by
  constructor
  · rintro ⟨keyword, u, rest, hsuffix, hvar⟩
    rcases List.suffix_cons_iff.1 hsuffix with heq | hbehind
    · obtain ⟨rfl, rfl⟩ := List.cons.inj heq
      exact .inl ⟨hvar.1, by simpa using hvar.2⟩
    · exact .inr ⟨keyword, u, rest, hbehind, hvar⟩
  · rintro (⟨hvar, hname⟩ | ⟨keyword, u, rest, hsuffix, hvar⟩)
    · cases ts with
      | nil => simp at hname
      | cons u rest => exact ⟨t, u, rest, List.suffix_rfl, hvar, by simpa using hname⟩
    · exact ⟨keyword, u, rest, hsuffix.trans (List.suffix_cons t ts), hvar⟩

/-- A function with parameters begins first, or further behind. -/
theorem declaresParam_cons_iff :
    DeclaresParam (t :: ts) name ↔
      (t.isKeyword "function" = true ∧ ts.head?.any (·.isSymbol "(") = true ∧
        ParamAhead ts.tail name) ∨ DeclaresParam ts name := by
  constructor
  · rintro ⟨keyword, bracket, rest, hsuffix, hfunction⟩
    rcases List.suffix_cons_iff.1 hsuffix with heq | hbehind
    · obtain ⟨rfl, rfl⟩ := List.cons.inj heq
      exact .inl ⟨hfunction.1, by simpa using hfunction.2.1, hfunction.2.2⟩
    · exact .inr ⟨keyword, bracket, rest, hbehind, hfunction⟩
  · rintro (⟨hfunction, hbracket, hname⟩ | ⟨keyword, bracket, rest, hsuffix, hfunction⟩)
    · cases ts with
      | nil => simp at hbracket
      | cons bracket rest =>
          exact ⟨t, bracket, rest, List.suffix_rfl, hfunction, by simpa using hbracket, hname⟩
    · exact ⟨keyword, bracket, rest, hsuffix.trans (List.suffix_cons t ts), hfunction⟩

/-- The names that a body declares are those of variables and those of parameters inside it. -/
theorem mem_declaredNames_iff :
    name ∈ declaredNames body ↔ DeclaresVariable body name ∨ DeclaresParam body name := by
  fun_induction declaredNames body with
  | case1 t u ts others hvar ih =>
      simp only [Bool.and_eq_true] at hvar
      have hfunction : t.isKeyword "function" = false := by
        simp_all [Token.isKeyword]
      rw [List.mem_cons, ih, declaresVariable_cons_iff (t := t), declaresParam_cons_iff (t := t)]
      simp [hvar, hfunction, @eq_comm _ name, or_assoc]
  | case2 t u ts others hvar hfunction ih =>
      simp only [Bool.and_eq_true] at hfunction
      have hkeyword : t.isKeyword "var" = false := by
        simp_all [Token.isKeyword]
      rw [List.mem_append, ih, mem_lambdaParams_iff, declaresVariable_cons_iff (t := t),
        declaresParam_cons_iff (t := t)]
      simp [hfunction, hkeyword, or_left_comm]
  | case3 t u ts others hvar hfunction ih =>
      simp only [Bool.and_eq_true, not_and, Bool.not_eq_true] at hvar hfunction
      have hnovariable : DeclaresVariable (t :: u :: ts) name ↔ DeclaresVariable (u :: ts) name := by
        rw [declaresVariable_cons_iff]
        exact or_iff_right fun h => by simp [hvar h.1] at h
      have hnoparam : DeclaresParam (t :: u :: ts) name ↔ DeclaresParam (u :: ts) name := by
        rw [declaresParam_cons_iff]
        exact or_iff_right fun h => by simp [hfunction h.1] at h
      rw [ih, hnovariable, hnoparam]
  | case4 body hshort =>
      have hlength := length_lt_two hshort
      refine iff_of_false (by simp) ?_
      rintro (⟨keyword, u, rest, hsuffix, -⟩ | ⟨keyword, u, rest, hsuffix, -⟩) <;>
      · have := hsuffix.length_le
        simp only [List.length_cons] at this
        omega

end Body

end Npl
