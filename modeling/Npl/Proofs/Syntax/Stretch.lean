import Npl.Proofs.Syntax.Provenance

/-!
# What readers take

A reader takes a stretch of the tokens in front of it and never goes back. What it makes of the
stretch keeps the order of the tokens, and it complains along the way: each complaint is about the
token that comes next then, so later complaints are about the same token or later ones.

## Main definitions

* `Complaint.Along` — complaints about tokens that come one behind the other.
* `Found` — values whose tokens are some of the tokens taken, in their order.
* `Reader.Draws` — what a reader makes of the stretch of tokens that it takes.

## Main results

* `Reader.Draws.bind` — one reader after the other.
* `Reader.draws_expect` — an expected token is one of those taken.
* `Reader.draws_items` — repeating a reader.
-/

namespace Npl

/-! ### Complaints in order -/

/-- The complaints are about tokens that come one behind the other, on the way from the tokens `ts`
to the tokens `rest` that are left of them; each is about the token that came next then, or the
end. -/
inductive Complaint.Along : List Token → List Complaint → List Token → Prop
  | nil {ts rest : List Token} (h : rest <:+ ts) : Along ts [] rest
  | cons {ts mid rest : List Token} {c : Complaint} {cs : List Complaint} (hmid : mid <:+ ts)
    (hc : c.token? = mid.head?) (hcs : Along mid cs rest) : Along ts (c :: cs) rest

namespace Complaint.Along

variable {ts mid rest : List Token} {cs ds : List Complaint}

theorem of_suffix (hmid : mid <:+ ts) (h : Along mid cs rest) : Along ts cs rest := by
  cases h with
  | nil hrest => exact .nil (hrest.trans hmid)
  | cons hnext hc hcs => exact .cons (hnext.trans hmid) hc hcs

/-- One stretch of the way after the other. -/
theorem append (h : Along ts cs mid) (h' : Along mid ds rest) : Along ts (cs ++ ds) rest := by
  induction h with
  | nil hmid => exact h'.of_suffix hmid
  | cons hnext hc _ ih => exact .cons hnext hc (ih h')

/-- A single complaint, about the next token. -/
theorem single {c : Complaint} (hc : c.token? = ts.head?) (hrest : rest <:+ ts) :
    Along ts [c] rest :=
  .cons List.suffix_rfl hc (.nil hrest)

end Complaint.Along

/-! ### Values found in tokens -/

/-- The values satisfy `P`, and their tokens, those of one value behind those of the other, are some
of the tokens `taken` in their order. -/
structure Found {α : Type} (toks : α → List Token) (P : α → Prop) (taken : List Token)
    (as : List α) : Prop where
  tokens : (as.flatMap toks).Sublist taken
  each : ∀ a ∈ as, P a

namespace Found

variable {α : Type} {toks : α → List Token} {P : α → Prop} {taken taken' : List Token}
  {as bs : List α}

theorem nil : Found toks P taken [] :=
  ⟨List.nil_sublist _, by simp⟩

theorem single {a : α} (htokens : (toks a).Sublist taken) (ha : P a) : Found toks P taken [a] :=
  ⟨by simpa using htokens, by simpa using ha⟩

/-- Values found in one stretch of tokens, and others found in the next one. -/
theorem append (h : Found toks P taken as) (h' : Found toks P taken' bs) :
    Found toks P (taken ++ taken') (as ++ bs) := by
  refine ⟨?_, ?_⟩
  · rw [List.flatMap_append]
    exact h.tokens.append h'.tokens
  · intro a ha
    exact (List.mem_append.1 ha).elim (h.each a) (h'.each a)

theorem mono (h : Found toks P taken as) (htaken : taken.Sublist taken') :
    Found toks P taken' as :=
  ⟨h.tokens.trans htaken, h.each⟩

/-- A value is found where it is found as one of a sort with the same tokens. -/
theorem map {β : Type} {sort : α → β} {toks' : β → List Token} {Q : β → Prop} {a? : Option α}
    (h : Found toks P taken a?.toList) (htoks : ∀ a, toks' (sort a) = toks a)
    (hsort : ∀ a, P a → Q (sort a)) : Found toks' Q taken (a?.map sort).toList := by
  cases a? with
  | none => exact .nil
  | some a =>
      have ha := h.tokens
      rw [Option.toList_some, List.flatMap_singleton, ← htoks] at ha
      exact .single ha (hsort a (h.each a (by simp)))

end Found

/-! ### Stretches of tokens -/

/-- One stretch of tokens and then another one. -/
theorem split_append {ts taken mid taken' rest : List Token} (h : ts = taken ++ mid)
    (h' : mid = taken' ++ rest) : ts = taken ++ taken' ++ rest := by
  rw [List.append_assoc, ← h', ← h]

/-- The reading takes a stretch of the tokens `ts`, makes of it what `V` says, and complains along
it. -/
def Reading.Draws {α : Type} (V : List Token → α → Prop) (ts : List Token) (r : Reading α) : Prop :=
  ∃ taken, ts = taken ++ r.rest ∧ V taken r.value ∧ Complaint.Along ts r.complaints r.rest

namespace Reader

variable {α β : Type} {file : List Token} {V : List Token → α → Prop} {W : List Token → β → Prop}
  {toks : α → List Token} {P : α → Prop}

/-- Wherever in the file it starts, the reader takes a stretch of the tokens in front of it, makes
of it what `V` says, and complains along it. -/
def Draws (file : List Token) (V : List Token → α → Prop) (p : Reader α) : Prop :=
  ∀ ts, ts <:+ file → (p ts).Draws V ts

/-- One reader after the other: what both have taken follows from what each of them has. -/
theorem Draws.bind {p : Reader α} {f : α → Reader β} (hp : p.Draws file V)
    (hf : ∀ taken a, V taken a → (f a).Draws file fun taken' b => W (taken ++ taken') b) :
    (p >>= f).Draws file W := by
  intro ts hts
  obtain ⟨taken, hsplit, hvalue, halong⟩ := hp ts hts
  have hmid : (p ts).rest <:+ file := .trans ⟨taken, hsplit.symm⟩ hts
  obtain ⟨taken', hsplit', hvalue', halong'⟩ := hf taken _ hvalue _ hmid
  exact ⟨taken ++ taken', split_append hsplit hsplit', hvalue', halong.append halong'⟩

theorem Draws.pure {a : α} (ha : V [] a) : Draws file V (Pure.pure a : Reader α) :=
  fun _ _ => ⟨[], rfl, ha, .nil List.suffix_rfl⟩

theorem Draws.ite {c : Prop} [Decidable c] {p q : Reader α} (hp : p.Draws file V)
    (hq : q.Draws file V) : (if c then p else q).Draws file V := by
  split
  · exact hp
  · exact hq

theorem Draws.mono {V' : List Token → α → Prop} {p : Reader α} (hp : p.Draws file V)
    (h : ∀ taken a, V taken a → V' taken a) : p.Draws file V' := by
  intro ts hts
  obtain ⟨taken, hsplit, hvalue, halong⟩ := hp ts hts
  exact ⟨taken, hsplit, h _ _ hvalue, halong⟩

/-- A reader leaves the end of the tokens in front of it. -/
theorem Draws.rest_suffix {ts : List Token} {p : Reader α} (hp : p.Draws ts V) :
    (p ts).rest <:+ ts := by
  obtain ⟨taken, hsplit, -⟩ := hp ts List.suffix_rfl
  exact ⟨taken, hsplit.symm⟩

/-- What a reader does that looks at the next token first. -/
theorem draws_peek_bind {f : Option Token → Reader β} {ts : List Token} (hts : ts <:+ file)
    (hnone : (f none).Draws file W)
    (hsome : ∀ t rest, ts = t :: rest → (f (some t) ts).Draws W ts) :
    ((peek >>= f) ts).Draws W ts := by
  cases ts with
  | nil => exact hnone [] hts
  | cons t rest => exact hsome t rest rfl

/-- What a reader does that takes the next token first. -/
theorem draws_skip_bind {f : Unit → Reader β} {t : Token} {ts : List Token}
    (hts : t :: ts <:+ file) (hf : (f ()).Draws file fun taken b => W (t :: taken) b) :
    ((skip >>= f) (t :: ts)).Draws W (t :: ts) := by
  have hrest : ts <:+ t :: ts := List.suffix_cons t ts
  obtain ⟨taken, hsplit, hvalue, halong⟩ := hf ts (hrest.trans hts)
  exact ⟨t :: taken, congrArg (List.cons t) hsplit, hvalue, halong.of_suffix hrest⟩

/-! ### Single tokens -/

theorem draws_next (p : Token → Bool) : (next p).Draws file fun taken _ => taken = [] :=
  fun _ _ => ⟨[], rfl, rfl, .nil List.suffix_rfl⟩

theorem draws_skip : skip.Draws file fun _ _ => True
  | [], _ => ⟨[], rfl, trivial, .nil List.suffix_rfl⟩
  | t :: ts, _ => ⟨[t], rfl, trivial, .nil (List.suffix_cons t ts)⟩

theorem draws_skipIf (p : Token → Bool) : (skipIf p).Draws file fun _ _ => True := by
  intro ts _
  fun_cases skipIf p ts with
  | case1 => exact ⟨[], rfl, trivial, .nil List.suffix_rfl⟩
  | case2 t ts hp => exact ⟨[t], rfl, trivial, .nil (List.suffix_cons t ts)⟩
  | case3 t ts hp => exact ⟨[], rfl, trivial, .nil List.suffix_rfl⟩

theorem draws_skipTo (p : Token → Bool) : (skipTo p).Draws file fun _ _ => True :=
  fun _ _ => ⟨_, List.takeWhile_append_dropWhile.symm, trivial, .nil (List.dropWhile_suffix _)⟩

theorem draws_complain (fault : SyntaxFault) : (complain fault).Draws file fun _ _ => True :=
  fun _ _ => ⟨[], rfl, trivial, .single rfl List.suffix_rfl⟩

/-- An expected token is one of those taken. -/
theorem draws_expect (p : Token → Bool) (expected : Expectation) (absent : SyntaxFault) :
    (expect p expected absent).Draws file fun taken t? =>
      ∀ t ∈ t?, p t = true ∧ [t].Sublist taken := by
  intro ts _
  fun_cases expect p expected absent ts with
  | case1 => exact ⟨[], rfl, by simp, .single rfl List.suffix_rfl⟩
  | case2 t ts hp => exact ⟨[t], rfl, by simpa using hp, .nil (List.suffix_cons t ts)⟩
  | case3 t hp => exact ⟨[], rfl, by simp, .single rfl List.suffix_rfl⟩
  | case4 t hp u us hu =>
      refine ⟨[t, u], rfl, by simpa using hu, .single rfl ?_⟩
      exact (List.suffix_cons u us).trans (List.suffix_cons t _)
  | case5 t hp u us hu => exact ⟨[], rfl, by simp, .single rfl List.suffix_rfl⟩

theorem draws_name : name.Draws file fun taken t? =>
    ∀ t ∈ t?, t.isIdentifier = true ∧ [t].Sublist taken :=
  draws_expect _ _ _

theorem draws_symbol (s : String) : (symbol s).Draws file fun taken t? =>
    ∀ t ∈ t?, t.isSymbol s = true ∧ [t].Sublist taken :=
  draws_expect _ _ _

/-! ### Repetition -/

/-- Repeating a reader: what the turns make comes in the order of what they take. -/
theorem draws_items {turn : Reader (Option α × Bool)}
    (hturn : turn.Draws file fun taken o => Found toks P taken o.1.toList) :
    (items turn).Draws file (Found toks P) := by
  intro ts hts
  fun_induction items turn ts with
  | case1 ts first hgo others ih =>
      obtain ⟨taken, hsplit, hfirst, halong⟩ := hturn ts hts
      have hmid : first.rest <:+ file := .trans ⟨taken, hsplit.symm⟩ hts
      obtain ⟨taken', hsplit', hothers, halong'⟩ := ih hmid
      exact ⟨taken ++ taken', split_append hsplit hsplit', hfirst.append hothers,
        halong.append halong'⟩
  | case2 ts first hend => exact hturn ts hts

end Reader

end Npl
