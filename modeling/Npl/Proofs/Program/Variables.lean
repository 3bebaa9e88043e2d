import Npl.Proofs.Program.Resolution
import Npl.Proofs.Syntax.Unambiguous

/-!
# Unused variables

A variable counts as used if its name stands anywhere in the body but in its own declaration, other
than as a member. So a name that is declared once is reported if it is never read. A name that is
declared twice is not reported at all: each declaration counts as a use for the other.

## Main definitions

* `Body.variableAt?` — the variable that is declared at a place of a body.
* `Body.declaresAt`, `Body.readsAt` — the places where a name is declared and where it is read.
* `Body.Unmentioned` — a name that is read nowhere, and declared at one place only.

## Main results

* `Body.mentions_eq_one_iff` — a name is mentioned in its declaration only exactly if it is read
  nowhere and declared nowhere else.
* `messagesWith_unusedVariable` — what the check tells about variables.
-/

namespace Npl

namespace Body

/-! ### Places of a body -/

/-- Whether the name stands at a place of a body. -/
def namesAt (body : List Token) (name : String) (i : Nat) : Bool :=
  body[i]?.any fun t => t.isIdentifier && t.text = name

/-- Whether the name is declared at a place of a body: `var` stands there, and the name behind it. -/
def declaresAt (body : List Token) (name : String) (i : Nat) : Bool :=
  body[i]?.any (·.isKeyword "var") && namesAt body name (i + 1)

/-- Whether the name is read at a place of a body: it stands there, directly behind neither `var` nor a
dot. -/
def readsAt (body : List Token) (name : String) (i : Nat) : Bool :=
  namesAt body name i && !(0 < i && body[i - 1]?.any fun t => t.isKeyword "var" || t.isSymbol ".")

/-- The name is declared at a place of the body and at no other, and is read nowhere. -/
def Unmentioned (body : List Token) (name : String) (i : Nat) : Prop :=
  (∀ j < body.length, readsAt body name j = false) ∧
    ∀ j < body.length, declaresAt body name j = true → j = i

instance (body : List Token) (name : String) (i : Nat) : Decidable (Unmentioned body name i) :=
  inferInstanceAs (Decidable (_ ∧ _))

/-- The variable that is declared at a place of a body, with the last token of the statement. -/
def variableAt? (body : List Token) (i : Nat) : Option Variable := do
  let keyword ← body[i]?
  let name ← body[i + 1]?
  let stop ← (semicolon? 0 (body.drop i)).or body.getLast?
  if keyword.isKeyword "var" && name.isIdentifier then some ⟨keyword, name, stop⟩ else none

variable {body : List Token} {name : String} {i : Nat}

/-- A name stands inside the body. -/
theorem lt_length_of_namesAt (h : namesAt body name i = true) : i < body.length := by
  by_contra hi
  simp [namesAt, List.getElem?_eq_none (Nat.le_of_not_lt hi)] at h

/-! ### Declarations -/

/-- Behind the first token the places of a body are those of the others. -/
theorem variableAt?_succ (t u : Token) (ts : List Token) (i : Nat) :
    variableAt? (t :: u :: ts) (i + 1) = variableAt? (u :: ts) i := by
  simp [variableAt?]

/-- The variable that is declared at the start of a body. -/
theorem variableAt?_zero (t u : Token) (ts : List Token) :
    variableAt? (t :: u :: ts) 0 =
      if t.isKeyword "var" && u.isIdentifier then
        some ⟨t, u, (semicolon? 0 (t :: u :: ts)).getD ((u :: ts).getLast (by simp))⟩
      else none := by
  have hlast : (t :: u :: ts).getLast? = some ((u :: ts).getLast (by simp)) := by
    rw [List.getLast?_eq_some_getLast (by simp), List.getLast_cons (by simp)]
  simp only [variableAt?, List.getElem?_cons_zero, List.getElem?_cons_succ, List.drop_zero, hlast]
  cases semicolon? 0 (t :: u :: ts) <;> rfl

/-- The first place of a body declares a variable or does not, and the others follow it. -/
theorem filterMap_variableAt?_cons (t u : Token) (ts : List Token) :
    (List.range (t :: u :: ts).length).filterMap (variableAt? (t :: u :: ts)) =
      (variableAt? (t :: u :: ts) 0).toList ++
        (List.range (u :: ts).length).filterMap (variableAt? (u :: ts)) := by
  have hbehind : variableAt? (t :: u :: ts) ∘ Nat.succ = variableAt? (u :: ts) :=
    funext (variableAt?_succ t u ts)
  rw [List.length_cons (a := t), List.range_succ_eq_map, List.filterMap_cons, List.filterMap_map,
    hbehind]
  cases variableAt? (t :: u :: ts) 0 <;> rfl

/-- Going through a body token by token finds the variables. -/
theorem declared_eq (body : List Token) :
    declared body = (List.range body.length).filterMap (variableAt? body) := by
  fun_induction declared body with
  | case1 t u ts others hvar ih =>
      rw [filterMap_variableAt?_cons, variableAt?_zero, if_pos hvar, ← ih]
      rfl
  | case2 t u ts others hvar ih =>
      rw [filterMap_variableAt?_cons, variableAt?_zero, if_neg hvar, ← ih]
      rfl
  | case3 body hshort =>
      rcases body with - | ⟨t, - | ⟨u, ts⟩⟩
      · rfl
      · simp [variableAt?]
      · exact absurd rfl (hshort t u ts)

/-- A variable is declared where its keyword stands. -/
theorem declaresAt_of_variableAt? {v : Variable} (h : variableAt? body i = some v) :
    declaresAt body v.name.text i = true := by
  simp only [variableAt?, Option.bind_eq_bind, Option.bind_eq_some_iff, Option.ite_none_right_eq_some,
    Bool.and_eq_true, Option.some.injEq] at h
  obtain ⟨keyword, hkeyword, name, hname, stop, -, ⟨hvar, hidentifier⟩, rfl⟩ := h
  simp [declaresAt, namesAt, hkeyword, hname, hvar, hidentifier]

/-! ### Mentions -/

/-- Whether the name is mentioned at a place of a body other than as a member; `member` tells whether a
dot stands before the first token. -/
def mentionsAt (member : Bool) (body : List Token) (name : String) (i : Nat) : Bool :=
  namesAt body name i && !(if i = 0 then member else body[i - 1]?.any (·.isSymbol "."))

/-- Going through a body token by token counts the places where the name is mentioned. -/
theorem mentionsFrom_eq_count (member : Bool) (name : String) (body : List Token) :
    mentionsFrom member name body =
      Nat.count (fun i => mentionsAt member body name i = true) body.length := by
  induction body generalizing member with
  | nil => rfl
  | cons t ts ih =>
      have hbehind : (fun i => mentionsAt member (t :: ts) name (i + 1) = true) =
          fun i => mentionsAt (t.isSymbol ".") ts name i = true := by
        funext i
        cases i <;> simp [mentionsAt, namesAt]
      have hfirst : mentionsAt member (t :: ts) name 0 =
          (t.isIdentifier && t.text = name && !member) := by
        simp [mentionsAt, namesAt]
      rw [List.length_cons, Nat.count_succ', mentionsFrom, ih]
      simp only [hbehind, hfirst]
      split <;> rfl

/-- A name is mentioned where it is read, and behind the places where it is declared. -/
theorem mentionsAt_iff :
    mentionsAt false body name i = true ↔
      readsAt body name i = true ∨ ∃ j, i = j + 1 ∧ declaresAt body name j = true := by
  cases i with
  | zero => simp [mentionsAt, readsAt]
  | succ j =>
      have hword : ∀ t : Token, t.isKeyword "var" = true → t.isSymbol "." = false :=
        fun t ht => Token.isSymbol_eq_false_of_isKeyword ht
      cases hnames : namesAt body name (j + 1) with
      | false => simp [mentionsAt, readsAt, declaresAt, hnames]
      | true =>
          cases hbefore : body[j]? with
          | none => simp [mentionsAt, readsAt, hnames, hbefore]
          | some t =>
              by_cases hvar : t.isKeyword "var" = true
              · simp [mentionsAt, declaresAt, hnames, hbefore, hvar, hword t hvar]
              · simp [mentionsAt, readsAt, declaresAt, hnames, hbefore, hvar]

/-- A name is not read in its declaration. -/
theorem readsAt_of_declaresAt (h : declaresAt body name i = true) :
    readsAt body name (i + 1) = false := by
  simp only [declaresAt, Bool.and_eq_true, Option.any_eq_true] at h
  obtain ⟨⟨t, ht, hvar⟩, -⟩ := h
  simp [readsAt, ht, hvar]

/-- **Mentioned once.** A name is mentioned in its declaration only exactly if it is read nowhere and
declared nowhere else. -/
theorem mentions_eq_one_iff (h : declaresAt body name i = true) :
    mentions name body = 1 ↔ Unmentioned body name i := by
  have hplace : mentionsAt false body name (i + 1) = true := mentionsAt_iff.2 (.inr ⟨i, rfl, h⟩)
  have hlt : ∀ {j}, mentionsAt false body name j = true → j < body.length := by
    intro j hj
    exact lt_length_of_namesAt (Bool.and_eq_true .. ▸ hj).1
  -- The place behind `var` is a mention, so there is only one exactly if every mention is there.
  have honly : mentions name body = 1 ↔ ∀ j, mentionsAt false body name j = true → j = i + 1 := by
    rw [mentions, mentionsFrom_eq_count, Nat.count_eq_card_filter_range, Finset.card_eq_one]
    constructor
    · rintro ⟨k, hk⟩ j hj
      have hmem : ∀ {j}, mentionsAt false body name j = true → j = k := fun {j} hj =>
        Finset.mem_singleton.1 (hk ▸ Finset.mem_filter.2 ⟨Finset.mem_range.2 (hlt hj), hj⟩)
      rw [hmem hj, hmem hplace]
    · intro honly
      refine ⟨i + 1, Finset.eq_singleton_iff_unique_mem.2 ⟨?_, fun j hj => ?_⟩⟩
      · exact Finset.mem_filter.2 ⟨Finset.mem_range.2 (hlt hplace), hplace⟩
      · exact honly j (Finset.mem_filter.1 hj).2
  rw [honly]
  constructor
  · intro honly
    refine ⟨fun j _ => Bool.eq_false_iff.2 fun hread => ?_, fun j _ hdeclares => ?_⟩
    · obtain rfl := honly j (mentionsAt_iff.2 (.inl hread))
      simp [readsAt_of_declaresAt h] at hread
    · exact Nat.succ.inj (honly (j + 1) (mentionsAt_iff.2 (.inr ⟨j, rfl, hdeclares⟩)))
  · rintro ⟨hreads, hdeclares⟩ j hj
    rcases mentionsAt_iff.1 hj with hread | ⟨k, rfl, hdeclared⟩
    · simp [hreads j (hlt hj)] at hread
    · rw [hdeclares k (Nat.lt_of_succ_lt (hlt hj)) hdeclared]

/-- The variables that are mentioned in their declaration only are those that are read nowhere and
declared at one place. -/
theorem unusedVariables_eq (body : List Token) :
    unusedVariables body = (List.range body.length).filterMap fun i =>
      (variableAt? body i).filter fun v => Unmentioned body v.name.text i := by
  rw [unusedVariables, declared_eq, List.filter_filterMap]
  refine List.filterMap_congr fun i _ => ?_
  cases hvariable : variableAt? body i with
  | none => rfl
  | some v =>
      have hiff := mentions_eq_one_iff (declaresAt_of_variableAt? hvariable)
      simp only [Option.filter_some, hiff]

/-- Each of two declarations of a name that is read nowhere counts as a use for the other. -/
example : (TokenList.ofText "var x = 1; var x = 2;").tokens.length = 10 ∧
    unusedVariables (TokenList.ofText "var x = 1; var x = 2;").tokens = [] := by decide +kernel

end Body

/-! ### What the check tells -/

/-- The errors of a unit are not about unused variables. -/
theorem SourceUnit.messagesWith_unusedVariable_errors (u : SourceUnit) (s : Scope) (i : Nat) :
    messagesWith .unusedVariable (u.errors s i) = [] := by
  simp [errors, messagesWith_flatMap, messagesWith_eq fun _ => code_of_mem_duplicateErrors,
    messagesWith_eq fun _ => code_of_mem_importErrors,
    messagesWith_eq fun _ => code_of_mem_typeErrors, messagesWith_eq fun _ => code_of_mem_callErrors,
    messagesWith_eq fun _ => code_of_mem_returnErrors]

/-- **Unused variables.** Of the functions of the units that are checked, the check reports each
variable that is read nowhere in its body, as long as its name is declared nowhere else in it, and no
other variable; each of them once, in order. -/
theorem messagesWith_unusedVariable (units : List SourceUnit) (skip : List Path) :
    messagesWith .unusedVariable (findings units skip) =
      (units.filter (·.isChecked skip)).flatMap fun u => u.tree.functions.flatMap fun d =>
        ((List.range d.body.length).filterMap fun i =>
          (Body.variableAt? d.body i).filter fun v => Body.Unmentioned d.body v.name.text i).map
            fun v => u.report (.unused v.name.text) v.keyword v.stop := by
  have herrors : messagesWith .unusedVariable (check units skip).1 = [] := by
    refine List.filter_eq_nil_iff.2 fun m hm => ?_
    obtain ⟨ms, hms, hm⟩ := List.mem_flatten.1 hm
    obtain ⟨i, hi, rfl⟩ := List.mem_mapIdx.1 hms
    split at hm
    · exact List.filter_eq_nil_iff.1
        (SourceUnit.messagesWith_unusedVariable_errors units[i] (Scope.ofUnits units) i) m hm
    · simp at hm
  have hwarnings : messagesWith .unusedVariable (check units skip).2 = (check units skip).2 := by
    refine List.filter_eq_self.2 fun m hm => ?_
    obtain ⟨u, -, hu⟩ := List.mem_flatMap.1 hm
    simpa using SourceUnit.code_of_mem_warnings hu
  rw [findings, messagesWith_append, herrors, hwarnings, List.nil_append]
  refine List.flatMap_congr fun u _ => ?_
  simp only [SourceUnit.warnings, Body.unusedVariables_eq]

end Npl
