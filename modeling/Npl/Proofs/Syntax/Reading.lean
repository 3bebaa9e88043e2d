import Npl.Syntax.Parse

/-!
# Reading without complaint

A reader always answers, so what it takes tells little: where the tokens do not fit, it complains and
goes on. Reading is exact where it has no complaint. This module says what each small reader takes
then, and how that composes; recovery after an error never comes up, because every way into it
complains first.

## Main definitions

* `Reader.Takes` — a reader takes tokens without complaint and answers a value.

## Main results

* `Reader.takes_bind_iff` — one reader after another has no complaint if both have none.
* `Reader.takes_expect_iff` — an expected token is taken without complaint only if it comes next.
* `Reader.takes_items_induction` — the induction over the turns of a repetition.
* `Reader.takes_typeRef_iff`, `Reader.takes_typeArguments_iff` — types are taken the way a monad would
  take them.
* `Reader.cut_unmet`, `Reader.cut_eq` — a run of tokens ends where the property first holds at depth
  zero.
-/

namespace Npl.Reader

variable {α β : Type}

/-- The reader takes tokens without complaint, answers `a` and leaves `rest`. -/
def Takes (p : Reader α) (ts : List Token) (a : α) (rest : List Token) : Prop :=
  p ts = ⟨a, [], rest⟩

/-! ### Composition -/

@[simp] theorem takes_pure_iff {a b : α} {ts rest : List Token} :
    Takes (Pure.pure a) ts b rest ↔ a = b ∧ ts = rest := by
  simp [Takes, Pure.pure, pure]

/-- One reader after another has no complaint exactly if both have none. -/
theorem takes_bind_iff {p : Reader α} {f : α → Reader β} {ts rest : List Token} {b : β} :
    Takes (p >>= f) ts b rest ↔ ∃ a mid, Takes p ts a mid ∧ Takes (f a) mid b rest := by
  constructor
  · intro h
    simp only [Takes, Bind.bind, bind, Reading.mk.injEq, List.append_eq_nil_iff] at h
    obtain ⟨hvalue, ⟨hfirst, hsecond⟩, hrest⟩ := h
    refine ⟨(p ts).value, (p ts).rest, ?_, ?_⟩
    · rw [Takes, ← hfirst]
    · rw [Takes, ← hvalue, ← hsecond, ← hrest]
  · rintro ⟨a, mid, hp, hf⟩
    rw [Takes] at hp hf
    simp [Takes, Bind.bind, bind, hp, hf]

/-- What two readers take one after the other. -/
theorem Takes.bind {p : Reader α} {f : α → Reader β} {ts mid rest : List Token} {a : α} {b : β}
    (hp : Takes p ts a mid) (hf : Takes (f a) mid b rest) : Takes (p >>= f) ts b rest :=
  takes_bind_iff.2 ⟨a, mid, hp, hf⟩

/-! ### Single tokens -/

@[simp] theorem takes_peek_iff {ts rest : List Token} {o : Option Token} :
    Takes peek ts o rest ↔ o = ts.head? ∧ rest = ts := by
  simp [Takes, peek, eq_comm]

@[simp] theorem takes_next_iff {p : Token → Bool} {ts rest : List Token} {b : Bool} :
    Takes (next p) ts b rest ↔ b = ts.head?.any p ∧ rest = ts := by
  simp [Takes, next, eq_comm]

@[simp] theorem takes_skip_iff {ts rest : List Token} {u : Unit} :
    Takes skip ts u rest ↔ rest = ts.tail := by
  simp [Takes, skip, eq_comm]

/-- A complaint is a complaint. -/
@[simp] theorem not_takes_complain {fault : SyntaxFault} {ts rest : List Token} {u : Unit} :
    ¬ Takes (complain fault) ts u rest := by
  simp [Takes, complain]

/-- Taking a token if it has a property: either it has, or it does not and stays. -/
theorem takes_skipIf_iff {p : Token → Bool} {ts rest : List Token} {b : Bool} :
    Takes (skipIf p) ts b rest ↔
      (b = true ∧ ∃ t, p t = true ∧ ts = t :: rest) ∨
        (b = false ∧ ts.head?.any p = false ∧ ts = rest) := by
  cases ts with
  | nil => grind [Takes, skipIf]
  | cons t ts =>
      by_cases ht : p t = true
      · simp only [Takes, skipIf, ht, if_true, Reading.mk.injEq, true_and]
        grind
      · simp only [Takes, skipIf, ht]
        grind

/-- An expected token is taken without complaint exactly if it comes next. -/
theorem takes_expect_iff {p : Token → Bool} {e : Expectation} {f : SyntaxFault}
    {ts rest : List Token} {o : Option Token} :
    Takes (expect p e f) ts o rest ↔ ∃ t, p t = true ∧ o = some t ∧ ts = t :: rest := by
  constructor
  · intro h
    fun_cases expect p e f ts with
    | case1 => simp [Takes, expect] at h
    | case2 t ts ht =>
        simp only [Takes, expect, ht, if_true, Reading.mk.injEq, true_and] at h
        exact ⟨t, ht, h.1.symm, by rw [h.2]⟩
    | case3 t ht => simp [Takes, expect, ht] at h
    | case4 t ht u us hu => simp [Takes, expect, ht, hu] at h
    | case5 t ht u us hu => simp [Takes, expect, ht, hu] at h
  · rintro ⟨t, ht, rfl, rfl⟩
    simp [Takes, expect, ht]

/-- A name is taken without complaint exactly if it comes next. -/
theorem takes_name_iff {ts rest : List Token} {o : Option Token} :
    Takes name ts o rest ↔ ∃ t, t.isIdentifier = true ∧ o = some t ∧ ts = t :: rest :=
  takes_expect_iff

/-- A symbol is taken without complaint exactly if it comes next. -/
theorem takes_symbol_iff {s : String} {ts rest : List Token} {o : Option Token} :
    Takes (symbol s) ts o rest ↔ ∃ t, t.isSymbol s = true ∧ o = some t ∧ ts = t :: rest :=
  takes_expect_iff

/-! ### Repetition -/

section Items

variable {turn : Reader (Option α × Bool)} {rest : List Token}

/-- A repetition goes on behind a turn that asks for it and has taken something, whether the turn has
complaints or not. -/
theorem items_of_go {ts mid : List Token} {o : Option α} {complaints : List Complaint}
    (hturn : turn ts = ⟨(o, true), complaints, mid⟩) (hlt : mid.length < ts.length) :
    items turn ts = ⟨o.toList ++ (items turn mid).value,
      complaints ++ (items turn mid).complaints, (items turn mid).rest⟩ := by
  rw [items]
  simp [hturn, hlt]

/-- A repetition ends with a turn that does not ask for another one, whether the turn has complaints or
not. -/
theorem items_of_last {ts mid : List Token} {o : Option α} {complaints : List Complaint}
    (hturn : turn ts = ⟨(o, false), complaints, mid⟩) :
    items turn ts = ⟨o.toList, complaints, mid⟩ := by
  rw [items]
  simp [hturn]

/-- A repetition without complaint goes on behind a turn without complaint. -/
theorem takes_items_of_go {ts mid : List Token} {o : Option α} {as : List α}
    (hturn : Takes turn ts (o, true) mid) (hlt : mid.length < ts.length)
    (hitems : Takes (items turn) mid as rest) :
    Takes (items turn) ts (o.toList ++ as) rest := by
  rw [Takes] at hturn hitems
  rw [Takes, items_of_go hturn hlt, hitems]
  rfl

/-- A repetition ends with a turn that does not ask for another one. -/
theorem takes_items_of_end {ts : List Token} {o : Option α}
    (hturn : Takes turn ts (o, false) rest) :
    Takes (items turn) ts o.toList rest :=
  items_of_last hturn

/-- The induction over the turns of a repetition without complaint: the last turn either asks for no
other one or has taken nothing, and all turns before it ask for another one. -/
theorem takes_items_induction {motive : List Token → List α → Prop}
    (last : ∀ ts o go, Takes turn ts (o, go) rest → ¬ (go = true ∧ rest.length < ts.length) →
      motive ts o.toList)
    (step : ∀ ts o mid as, Takes turn ts (o, true) mid → motive mid as →
      motive ts (o.toList ++ as)) {ts : List Token} {as : List α}
    (h : Takes (items turn) ts as rest) : motive ts as := by
  rw [Takes, items] at h
  split at h
  · next hgo =>
      have hlt : (turn ts).rest.length < ts.length := hgo.2
      simp only [Reading.mk.injEq, List.append_eq_nil_iff] at h
      obtain ⟨hvalue, ⟨hfirst, hothers⟩, hrest⟩ := h
      have hturn : Takes turn ts ((turn ts).value.1, true) (turn ts).rest := by
        rw [Takes, ← hgo.1, ← hfirst]
      have hitems :
          Takes (items turn) (turn ts).rest (items turn (turn ts).rest).value rest := by
        rw [Takes, ← hothers, ← hrest]
      exact hvalue ▸ step ts _ _ _ hturn (takes_items_induction last step hitems)
  · next hgo =>
      simp only [Reading.mk.injEq] at h
      obtain ⟨hvalue, hfirst, hrest⟩ := h
      have hturn : Takes turn ts ((turn ts).value.1, (turn ts).value.2) rest := by
        rw [Takes, ← hfirst, ← hrest]
      exact hvalue ▸ last ts _ _ hturn (hrest ▸ hgo)
termination_by ts.length

end Items

/-! ### Types -/

/-- Behind a name, a type looks for an opening angle bracket. -/
theorem typeRef_of_name {ts mid : List Token} {token : Token} {complaints : List Complaint}
    (h : name ts = ⟨some token, complaints, mid⟩) :
    typeRef ts = match mid with
      | bracket :: inner =>
        if bracket.isSymbol "<" then
          let arguments := typeArguments bracket inner
          let close := symbol ">" arguments.rest
          ⟨some (.mk token arguments.value.1 (close.value.getD arguments.value.2)),
            complaints ++ arguments.complaints ++ close.complaints, close.rest⟩
        else ⟨some (.mk token [] token), complaints, bracket :: inner⟩
      | [] => ⟨some (.mk token [] token), complaints, []⟩ := by
  rw [typeRef]
  split
  · next hname => simp [h] at hname
  · next hname =>
      rw [h] at hname
      injection hname with htoken hcomplaints hmid
      injection htoken with htoken
      subst token complaints mid
      split <;> rfl

/-- A type without complaint has a name. -/
theorem exists_name_of_takes_typeRef {ts rest : List Token} {o : Option TypeRef}
    (h : Takes typeRef ts o rest) :
    ∃ token complaints mid, name ts = ⟨some token, complaints, mid⟩ := by
  unfold Takes at h
  rw [typeRef] at h
  split at h
  · next hname =>
      simp only [Reading.mk.injEq] at h
      obtain ⟨rfl, rfl, rfl⟩ := h
      obtain ⟨t, -, hnone, -⟩ := takes_name_iff.1 hname
      simp at hnone
  · next token complaints mid hname => exact ⟨token, complaints, mid, hname⟩

/-- A type is a name, and arguments if an opening angle bracket follows. -/
theorem takes_typeRef_iff {ts rest : List Token} {o : Option TypeRef} :
    Takes typeRef ts o rest ↔ ∃ token mid, token.isIdentifier = true ∧ ts = token :: mid ∧
      ((mid.head?.any (·.isSymbol "<") = false ∧ o = some (.mk token [] token) ∧ rest = mid) ∨
        ∃ bracket inner as stop close, bracket.isSymbol "<" = true ∧ mid = bracket :: inner ∧
          Takes (typeArguments bracket) inner (as, stop) (close :: rest) ∧
          close.isSymbol ">" = true ∧ o = some (.mk token as close)) := by
  constructor
  · intro h
    obtain ⟨token, complaints, mid, hname⟩ := exists_name_of_takes_typeRef h
    have named : complaints = [] → token.isIdentifier = true ∧ ts = token :: mid := by
      rintro rfl
      obtain ⟨t, ht, htoken, hts⟩ := takes_name_iff.1 hname
      injection htoken with htoken
      exact ⟨htoken ▸ ht, htoken ▸ hts⟩
    unfold Takes at h
    rw [typeRef_of_name hname] at h
    cases mid with
    | nil =>
        simp only [Reading.mk.injEq] at h
        obtain ⟨rfl, hcomplaints, rfl⟩ := h
        obtain ⟨htoken, rfl⟩ := named hcomplaints
        exact ⟨token, _, htoken, rfl, .inl ⟨rfl, rfl, rfl⟩⟩
    | cons bracket inner =>
        by_cases hbracket : bracket.isSymbol "<" = true
        · simp only [hbracket, if_true, Reading.mk.injEq, List.append_eq_nil_iff] at h
          obtain ⟨rfl, ⟨⟨hcomplaints, harguments⟩, hclose⟩, hrest⟩ := h
          obtain ⟨htoken, rfl⟩ := named hcomplaints
          have hsymbol : Takes (symbol ">") (typeArguments bracket inner).rest
              (symbol ">" (typeArguments bracket inner).rest).value rest := by
            rw [Takes, ← hclose, ← hrest]
          obtain ⟨close, hmark, hvalue, hmid⟩ := takes_symbol_iff.1 hsymbol
          refine ⟨token, _, htoken, rfl, .inr ⟨bracket, inner,
            (typeArguments bracket inner).value.1, (typeArguments bracket inner).value.2, close,
            hbracket, rfl, ?_, hmark, ?_⟩⟩
          · unfold Takes
            rw [← harguments, ← hmid]
          · rw [hvalue]
            rfl
        · simp only [hbracket] at h
          obtain ⟨rfl, hcomplaints, rfl⟩ := Reading.mk.inj h
          obtain ⟨htoken, rfl⟩ := named hcomplaints
          exact ⟨token, _, htoken, rfl, .inl ⟨by simpa using hbracket, rfl, rfl⟩⟩
  · rintro ⟨token, mid, htoken, rfl, h⟩
    have hname : name (token :: mid) = ⟨some token, [], mid⟩ :=
      takes_name_iff.2 ⟨token, htoken, rfl, rfl⟩
    unfold Takes
    rw [typeRef_of_name hname]
    rcases h with ⟨hbracket, rfl, rfl⟩ |
      ⟨bracket, inner, as, stop, close, hbracket, rfl, harguments, hclose, rfl⟩
    · cases rest with
      | nil => rfl
      | cons t rest =>
          have ht : t.isSymbol "<" = false := by simpa using hbracket
          simp [ht]
    · unfold Takes at harguments
      have hsymbol : symbol ">" (close :: rest) = ⟨some close, [], rest⟩ :=
        takes_symbol_iff.2 ⟨close, hclose, rfl, rfl⟩
      simp [hbracket, harguments, hsymbol]

/-- Types with commas between them: a comma goes on if something was taken before it. -/
theorem takes_typeArguments_iff {last stop : Token} {ts rest : List Token} {as : List TypeRef} :
    Takes (typeArguments last) ts (as, stop) rest ↔ ∃ o mid, Takes typeRef ts o mid ∧
      ((∃ comma more others, comma.isSymbol "," = true ∧ mid = comma :: more ∧
          more.length < ts.length ∧ Takes (typeArguments comma) more (others, stop) rest ∧
          as = o.toList ++ others) ∨
        ((∀ comma more, mid = comma :: more → comma.isSymbol "," = true →
            ¬ more.length < ts.length) ∧
          as = o.toList ∧ stop = (o.map TypeRef.stop).getD last ∧ rest = mid)) := by
  constructor
  · intro h
    unfold Takes at h
    rw [typeArguments] at h
    simp only at h
    split at h
    · next comma more hmid =>
        split at h
        · next hcomma =>
            simp only [Reading.mk.injEq, List.append_eq_nil_iff, Prod.mk.injEq] at h
            obtain ⟨⟨rfl, rfl⟩, ⟨hfirst, hothers⟩, rfl⟩ := h
            refine ⟨(typeRef ts).value, comma :: more, ?_, .inl ⟨comma, more, _, hcomma.1, rfl,
              hcomma.2, ?_, rfl⟩⟩
            · unfold Takes
              rw [← hfirst, ← hmid]
            · unfold Takes
              rw [← hothers]
        · next hcomma =>
            simp only [Reading.mk.injEq, Prod.mk.injEq] at h
            obtain ⟨⟨rfl, rfl⟩, hfirst, rfl⟩ := h
            refine ⟨(typeRef ts).value, comma :: more, ?_, .inr ⟨?_, rfl, rfl, rfl⟩⟩
            · unfold Takes
              rw [← hfirst, ← hmid]
            · rintro c m ⟨⟩ hc hlt
              exact hcomma ⟨hc, hlt⟩
    · next hmid =>
        simp only [Reading.mk.injEq, Prod.mk.injEq] at h
        obtain ⟨⟨rfl, rfl⟩, hfirst, rfl⟩ := h
        refine ⟨(typeRef ts).value, [], ?_, .inr ⟨by simp, rfl, rfl, rfl⟩⟩
        unfold Takes
        rw [← hfirst, ← hmid]
  · rintro ⟨o, mid, hfirst, ⟨comma, more, others, hcomma, rfl, hlt, hothers, rfl⟩ |
      ⟨hend, rfl, rfl, rfl⟩⟩
    · unfold Takes at hfirst hothers
      unfold Takes
      rw [typeArguments]
      simp [hfirst, hcomma, hlt, hothers]
    · unfold Takes at hfirst
      unfold Takes
      rw [typeArguments]
      cases rest with
      | nil => simp [hfirst]
      | cons comma more =>
          have hcomma : ¬ (comma.isSymbol "," = true ∧ more.length < ts.length) :=
            fun h => hend comma more rfl h.1 h.2
          simp [hfirst, hcomma]

/-! ### Runs -/

theorem takes_run_iff {p : Token → Bool} {ts body rest : List Token} :
    Takes (run p) ts body rest ↔ cut p 0 ts = (body, rest) := by
  simp [Takes, run, Prod.ext_iff]

/-- Cutting loses nothing. -/
theorem cut_append (p : Token → Bool) (d : Nat) (ts : List Token) :
    (cut p d ts).1 ++ (cut p d ts).2 = ts := by
  induction ts generalizing d with
  | nil => rfl
  | cons t ts ih =>
      by_cases h : d = 0 ∧ p t = true
      · simp [cut, h]
      · rw [cut, if_neg h]
        simp [ih]

/-- What is left behind a cut is nothing, or starts at depth zero with the property. -/
theorem cut_rest (p : Token → Bool) (d : Nat) (ts : List Token) :
    (cut p d ts).2 = [] ∨ ∃ t rest, (cut p d ts).2 = t :: rest ∧ p t = true ∧
      (cut p d ts).1.foldl nest d = 0 := by
  induction ts generalizing d with
  | nil => exact .inl rfl
  | cons t ts ih =>
      by_cases h : d = 0 ∧ p t = true
      · exact .inr ⟨t, ts, by simp [cut, h], h.2, by simp [cut, h]⟩
      · rw [cut, if_neg h]
        simpa using ih (nest d t)

/-- Inside a cut run no token at depth zero has the property. -/
theorem cut_unmet (p : Token → Bool) (d : Nat) (ts : List Token) :
    ∀ before t after, (cut p d ts).1 = before ++ t :: after → before.foldl nest d = 0 →
      p t = false := by
  induction ts generalizing d with
  | nil => simp [cut]
  | cons t ts ih =>
      intro before u after heq hdepth
      by_cases h : d = 0 ∧ p t = true
      · simp [cut, h] at heq
      · rw [cut, if_neg h] at heq
        cases before with
        | nil =>
            injection heq with htu _
            subst htu
            have hd : d = 0 := hdepth
            simpa [hd] using h
        | cons b before =>
            injection heq with htb htail
            subst htb
            exact ih (nest d t) before u after htail hdepth

/-- A run that meets the property at depth zero first behind its end is cut there. -/
theorem cut_eq {p : Token → Bool} {d : Nat} {run : List Token} {t : Token} {rest : List Token}
    (hunmet : ∀ before u after, run = before ++ u :: after → before.foldl nest d = 0 → p u = false)
    (hdepth : run.foldl nest d = 0) (ht : p t = true) :
    cut p d (run ++ t :: rest) = (run, t :: rest) := by
  induction run generalizing d with
  | nil =>
      have hd : d = 0 := hdepth
      simp [cut, hd, ht]
  | cons u run ih =>
      have hu : ¬ (d = 0 ∧ p u = true) := by
        rintro ⟨hd, hu⟩
        have hfalse := hunmet [] u run rfl hd
        rw [hu] at hfalse
        exact Bool.noConfusion hfalse
      rw [List.cons_append, cut, if_neg hu, ih _ hdepth]
      intro before v after heq hbefore
      exact hunmet (u :: before) v after (by rw [heq, List.cons_append]) hbefore

end Npl.Reader
