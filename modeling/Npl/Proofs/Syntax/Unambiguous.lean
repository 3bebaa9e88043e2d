import Npl.Proofs.Syntax.Grammar

/-!
# Derivations are unique

Two derivations with the same tokens are the same. Rule by rule this is shown for derivations with
further tokens behind them: a derivation and what follows it can be told apart, unless what follows
starts with a token that could go on with it. For a type that is an opening angle bracket, for a
dotted name a dot, and so on; each rule names these tokens, and the rules around it rule them out.

## Main definitions

* `Stops` — what follows does not start with a token that goes on.
* `Separates` — derivations can be told apart from what follows.

## Main results

* `File.eq_of_tokens_eq` — a file has one derivation at most.
-/

namespace Npl

/-! ### Sorts of tokens -/

namespace Token

/-- A token is one symbol only. -/
theorem isSymbol_eq_false_of_ne {t : Token} {s u : String} (h : t.isSymbol s = true) (hne : s ≠ u) :
    t.isSymbol u = false := by
  simp only [isSymbol, Bool.and_eq_true, decide_eq_true_eq] at h
  simp [isSymbol, h.1, h.2, hne]

/-- A symbol is no keyword. -/
theorem isKeyword_eq_false_of_isSymbol {t : Token} {s u : String} (h : t.isSymbol s = true) :
    t.isKeyword u = false := by
  simp only [isSymbol, Bool.and_eq_true, decide_eq_true_eq] at h
  simp [isKeyword, h.1]

/-- A keyword is no symbol. -/
theorem isSymbol_eq_false_of_isKeyword {t : Token} {s u : String} (h : t.isKeyword s = true) :
    t.isSymbol u = false := by
  simp only [isKeyword, Bool.and_eq_true, decide_eq_true_eq] at h
  simp [isSymbol, h.1]

/-- A token is one keyword only. -/
theorem isKeyword_eq_false_of_ne {t : Token} {s u : String} (h : t.isKeyword s = true)
    (hne : s ≠ u) : t.isKeyword u = false := by
  simp only [isKeyword, Bool.and_eq_true, decide_eq_true_eq] at h
  simp [isKeyword, h.1, h.2, hne]

/-- A name is no symbol. -/
theorem isSymbol_eq_false_of_isIdentifier {t : Token} {s : String} (h : t.isIdentifier = true) :
    t.isSymbol s = false := by
  simp only [isIdentifier, decide_eq_true_eq] at h
  simp [isSymbol, h]

/-- A name is no keyword. -/
theorem isKeyword_eq_false_of_isIdentifier {t : Token} {s : String} (h : t.isIdentifier = true) :
    t.isKeyword s = false := by
  simp only [isIdentifier, decide_eq_true_eq] at h
  simp [isKeyword, h]

/-- No name opens an item. -/
theorem opensItem_eq_false_of_isIdentifier {t : Token} (h : t.isIdentifier = true) :
    t.opensItem = false := by
  simp [opensItem, isKeyword_eq_false_of_isIdentifier h]

/-- What opens an item is no symbol. -/
theorem isSymbol_eq_false_of_opensItem {t : Token} {s : String} (h : t.opensItem = true) :
    t.isSymbol s = false := by
  simp only [opensItem, Bool.or_eq_true] at h
  rcases h with (h | h) | h <;> exact isSymbol_eq_false_of_isKeyword h

end Token

namespace Grammar

/-! ### What follows -/

/-- What follows does not start with a token with the property `p`. -/
def Stops (p : Token → Bool) (ts : List Token) : Prop :=
  ts.head?.any p = false

@[simp] theorem stops_nil (p : Token → Bool) : Stops p [] := rfl

@[simp] theorem stops_cons {p : Token → Bool} {t : Token} {ts : List Token} :
    Stops p (t :: ts) ↔ p t = false := by
  simp [Stops]

/-- A symbol stops whatever another symbol goes on with. -/
theorem stops_sym {s u : String} (mark : Sym s) (ts : List Token) (hne : s ≠ u) :
    Stops (·.isSymbol u) (mark.1 :: ts) :=
  stops_cons.2 (Token.isSymbol_eq_false_of_ne mark.2 hne)

/-- The derivations written by `tokens` can be told apart from what follows them, unless that starts
with a token with the property `more`. -/
def Separates {α : Type} (tokens : α → List Token) (more : Token → Bool) : Prop :=
  ∀ ⦃a b : α⦄ ⦃r s : List Token⦄, Stops more r → Stops more s →
    tokens a ++ r = tokens b ++ s → a = b ∧ r = s

/-- A token of a fixed sort at the front can be told apart from everything. -/
theorem terminal_cons_inj {p : Token → Bool} {i j : Terminal p} {r s : List Token}
    (h : i.1 :: r = j.1 :: s) : i = j ∧ r = s := by
  injection h with hi hr
  exact ⟨Subtype.ext hi, hr⟩

/-- Tokens of sorts that exclude each other are different. -/
theorem terminal_cons_ne {p q : Token → Bool} (hpq : ∀ t, p t = true → q t = false)
    (i : Terminal p) (j : Terminal q) (r s : List Token) : i.1 :: r ≠ j.1 :: s := by
  intro h
  injection h with hij _
  have hq : q j.1 = false := hij ▸ hpq i.1 i.2
  simp [j.2] at hq

/-- A token that may be left out can be told apart from what does not start with one. -/
theorem separates_optional (p : Token → Bool) :
    Separates (optional : Option (Terminal p) → List Token) p := by
  intro a b r s hr hs h
  cases a with
  | none =>
      cases b with
      | none => exact ⟨rfl, h⟩
      | some j =>
          obtain rfl : r = j.1 :: s := h
          exact absurd hr (by simp [j.2])
  | some i =>
      cases b with
      | none =>
          obtain rfl : i.1 :: r = s := h
          exact absurd hs (by simp [i.2])
      | some j =>
          obtain ⟨rfl, rfl⟩ := terminal_cons_inj (i := i) (j := j) h
          exact ⟨rfl, rfl⟩

/-- A separated run can be told apart from what neither separates nor goes on with a member. -/
theorem separates_separated {α : Type} {f : α → List Token} {s : String} {more : Token → Bool}
    (hf : Separates f more) (hmark : ∀ t : Token, t.isSymbol s = true → more t = false) :
    Separates (Separated.tokens f : Separated s α → List Token)
      fun t => t.isSymbol s || more t := by
  have split : ∀ {ts : List Token}, Stops (fun t => t.isSymbol s || more t) ts →
      Stops (·.isSymbol s) ts ∧ Stops more ts := by
    intro ts h
    cases ts with
    | nil => simp
    | cons t ts => simpa using h
  intro a
  induction a with
  | one x =>
      intro b r u hr hu h
      cases b with
      | one y =>
          obtain ⟨rfl, rfl⟩ := hf (split hr).2 (split hu).2 h
          exact ⟨rfl, rfl⟩
      | cons y mark others =>
          simp only [Separated.tokens, List.append_assoc, List.cons_append] at h
          obtain ⟨rfl, rfl⟩ := hf (split hr).2 (stops_cons.2 (hmark _ mark.2)) h
          exact absurd (split hr).1 (by simp [mark.2])
  | cons x mark others ih =>
      intro b r u hr hu h
      cases b with
      | one y =>
          simp only [Separated.tokens, List.append_assoc, List.cons_append] at h
          obtain ⟨rfl, rfl⟩ := hf (stops_cons.2 (hmark _ mark.2)) (split hu).2 h
          exact absurd (split hu).1 (by simp [mark.2])
      | cons y mark' others' =>
          simp only [Separated.tokens, List.append_assoc, List.cons_append] at h
          obtain ⟨rfl, htail⟩ :=
            hf (stops_cons.2 (hmark _ mark.2)) (stops_cons.2 (hmark _ mark'.2)) h
          obtain ⟨rfl, hothers⟩ := terminal_cons_inj htail
          obtain ⟨rfl, rfl⟩ := ih hr hu hothers
          exact ⟨rfl, rfl⟩

/-! ### Names and types -/

/-- A dotted name can be told apart from what does not start with a dot. -/
theorem separates_name : Separates Name.tokens (·.isSymbol ".") := by
  have hident : Separates (fun i : Ident => [i.1]) fun _ => false := by
    intro i j r s _ _ h
    exact terminal_cons_inj h
  intro a b r s hr hs h
  exact separates_separated hident (fun _ _ => rfl) (by simpa [Stops] using hr)
    (by simpa [Stops] using hs) h

mutual

/-- A type can be told apart from what does not start with an opening angle bracket. -/
theorem TypeUse.append_inj : ∀ (a b : TypeUse) {r s : List Token}, Stops (·.isSymbol "<") r →
    Stops (·.isSymbol "<") s → a.tokens ++ r = b.tokens ++ s → a = b ∧ r = s
  | .plain i, .plain j, r, s, _, _, h => by
      obtain ⟨rfl, rfl⟩ := terminal_cons_inj (i := i) (j := j) h
      exact ⟨rfl, rfl⟩
  | .plain i, .generic j opening as closing, r, s, hr, _, h => by
      obtain ⟨-, rfl⟩ := terminal_cons_inj (i := i) (j := j) h
      exact absurd hr (by simp [opening.2])
  | .generic i opening as closing, .plain j, r, s, _, hs, h => by
      obtain ⟨-, rfl⟩ := terminal_cons_inj (i := i) (j := j) h
      exact absurd hs (by simp [opening.2])
  | .generic i opening as closing, .generic j opening' bs closing', r, s, _, _, h => by
      simp only [TypeUse.tokens, List.cons_append, List.append_assoc, List.nil_append] at h
      obtain ⟨rfl, hname⟩ := terminal_cons_inj h
      obtain ⟨rfl, hopening⟩ := terminal_cons_inj hname
      obtain ⟨rfl, hclosing⟩ := TypeUses.append_inj as bs (stops_sym closing r (by decide))
        (stops_sym closing r (by decide)) (stops_sym closing' s (by decide))
        (stops_sym closing' s (by decide)) hopening
      obtain ⟨rfl, rfl⟩ := terminal_cons_inj hclosing
      exact ⟨rfl, rfl⟩

/-- Types with commas between them can be told apart from what starts neither with a comma nor with
an opening angle bracket. -/
theorem TypeUses.append_inj : ∀ (a b : TypeUses) {r s : List Token}, Stops (·.isSymbol ",") r →
    Stops (·.isSymbol "<") r → Stops (·.isSymbol ",") s → Stops (·.isSymbol "<") s →
      a.tokens ++ r = b.tokens ++ s → a = b ∧ r = s
  | .one x, .one y, r, s, _, hr, _, hs, h => by
      obtain ⟨rfl, rfl⟩ := TypeUse.append_inj x y hr hs h
      exact ⟨rfl, rfl⟩
  | .one x, .cons y comma others, r, s, hc, hr, _, _, h => by
      simp only [TypeUses.tokens, List.append_assoc, List.cons_append] at h
      obtain ⟨-, rfl⟩ := TypeUse.append_inj x y hr (stops_sym comma _ (by decide)) h
      exact absurd hc (by simp [comma.2])
  | .cons x comma others, .one y, r, s, _, _, hc, hs, h => by
      simp only [TypeUses.tokens, List.append_assoc, List.cons_append] at h
      obtain ⟨-, rfl⟩ := TypeUse.append_inj x y (stops_sym comma _ (by decide)) hs h
      exact absurd hc (by simp [comma.2])
  | .cons x comma others, .cons y comma' others', r, s, hcr, hr, hcs, hs, h => by
      simp only [TypeUses.tokens, List.append_assoc, List.cons_append] at h
      obtain ⟨rfl, htail⟩ := TypeUse.append_inj x y (stops_sym comma _ (by decide))
        (stops_sym comma' _ (by decide)) h
      obtain ⟨rfl, hothers⟩ := terminal_cons_inj htail
      obtain ⟨rfl, rfl⟩ := TypeUses.append_inj others others' hcr hr hcs hs hothers
      exact ⟨rfl, rfl⟩

end
/-! ### Fields and parameters -/

/-- A field can be told apart from what does not start with an opening angle bracket. -/
theorem separates_field : Separates Field.tokens (·.isSymbol "<") := by
  rintro ⟨i, colon, type⟩ ⟨j, colon', type'⟩ r s hr hs h
  simp only [Field.tokens, List.cons_append] at h
  obtain ⟨rfl, hcolon⟩ := terminal_cons_inj h
  obtain ⟨rfl, htype⟩ := terminal_cons_inj hcolon
  obtain ⟨rfl, rfl⟩ := TypeUse.append_inj type type' hr hs htype
  exact ⟨rfl, rfl⟩

/-- Fields with commas between them start with a name. -/
theorem exists_ident_of_fields (fields : Separated "," Field) :
    ∃ (i : Ident) (ts : List Token), fields.tokens Field.tokens = i.1 :: ts := by
  cases fields with
  | one f => exact ⟨f.name, _, rfl⟩
  | cons f mark others => exact ⟨f.name, _, rfl⟩

/-- A symbol does not start with a name. -/
theorem ne_fields_append {s : String} (mark : Sym s) (fields : Separated "," Field)
    (r u : List Token) : mark.1 :: r ≠ fields.tokens Field.tokens ++ u := by
  obtain ⟨i, ts, hi⟩ := exists_ident_of_fields fields
  rw [hi, List.cons_append]
  exact (terminal_cons_ne (fun _ => Token.isSymbol_eq_false_of_isIdentifier) i mark _ _).symm

/-- Parameters can be told apart from the closing parenthesis behind them. -/
theorem Params.append_inj {a b : Params} {c d : Sym ")"} {r s : List Token}
    (h : a.tokens ++ c.1 :: r = b.tokens ++ d.1 :: s) : a = b ∧ c = d ∧ r = s := by
  have hstops : ∀ (e : Sym ")") (ts : List Token),
      Stops (fun t => t.isSymbol "," || t.isSymbol "<") (e.1 :: ts) := by
    intro e ts
    simp [Token.isSymbol_eq_false_of_ne e.2 (u := ",") (by decide),
      Token.isSymbol_eq_false_of_ne e.2 (u := "<") (by decide)]
  cases a with
  | none =>
      cases b with
      | none =>
          obtain ⟨rfl, rfl⟩ := terminal_cons_inj h
          exact ⟨rfl, rfl, rfl⟩
      | some gs => exact absurd h (ne_fields_append c gs _ _)
  | some fs =>
      cases b with
      | none => exact absurd h.symm (ne_fields_append d fs _ _)
      | some gs =>
          obtain ⟨rfl, hclosing⟩ := separates_separated separates_field
            (fun t ht => Token.isSymbol_eq_false_of_ne ht (by decide)) (hstops c r) (hstops d s) h
          obtain ⟨rfl, rfl⟩ := terminal_cons_inj hclosing
          exact ⟨rfl, rfl, rfl⟩

/-- What closes a structure does not go on with a field, with or without a comma before it. -/
theorem stops_trailing {u : String} (o : Option (Sym ",")) (c : Sym "\x7d") (r : List Token)
    (hcomma : "," ≠ u) (hclosing : "\x7d" ≠ u) :
    Stops (·.isSymbol u) (optional o ++ c.1 :: r) := by
  cases o with
  | none => exact stops_sym c r hclosing
  | some mark => exact stops_sym mark _ hcomma

/-- One comma behind the last field is no comma before another field. -/
theorem trailing_ne_cons {o : Option (Sym ",")} {c : Sym "\x7d"} {mark : Sym ","}
    {others : Separated "," Field} {r u : List Token} :
    optional o ++ c.1 :: r ≠ mark.1 :: (others.tokens Field.tokens ++ u) := by
  intro h
  cases o with
  | none =>
      exact terminal_cons_ne (fun _ ht => Token.isSymbol_eq_false_of_ne ht (by decide)) c mark _ _ h
  | some mark' =>
      obtain ⟨-, htail⟩ := terminal_cons_inj (i := mark') (j := mark) h
      exact ne_fields_append c others _ _ htail

/-- Fields and a last comma can be told apart from the closing brace behind them. -/
theorem separated_trailing_inj {a b : Separated "," Field} {o u : Option (Sym ",")}
    {c d : Sym "\x7d"} {r s : List Token}
    (h : a.tokens Field.tokens ++ (optional o ++ c.1 :: r) =
      b.tokens Field.tokens ++ (optional u ++ d.1 :: s)) :
    a = b ∧ o = u ∧ c = d ∧ r = s := by
  have hstops : ∀ (o : Option (Sym ",")) (c : Sym "\x7d") (r : List Token),
      Stops (·.isSymbol "<") (optional o ++ c.1 :: r) :=
    fun o c r => stops_trailing o c r (by decide) (by decide)
  induction a generalizing b with
  | one x =>
      cases b with
      | one y =>
          obtain ⟨rfl, htail⟩ := separates_field (hstops o c r) (hstops u d s) h
          obtain ⟨rfl, hclosing⟩ := separates_optional _ (stops_sym c r (by decide))
            (stops_sym d s (by decide)) htail
          obtain ⟨rfl, rfl⟩ := terminal_cons_inj hclosing
          exact ⟨rfl, rfl, rfl, rfl⟩
      | cons y mark others =>
          simp only [Separated.tokens, List.append_assoc, List.cons_append] at h
          obtain ⟨-, htail⟩ := separates_field (hstops o c r) (stops_sym mark _ (by decide)) h
          exact absurd htail trailing_ne_cons
  | cons x mark others ih =>
      cases b with
      | one y =>
          simp only [Separated.tokens, List.append_assoc, List.cons_append] at h
          obtain ⟨-, htail⟩ := separates_field (stops_sym mark _ (by decide)) (hstops u d s) h
          exact absurd htail.symm trailing_ne_cons
      | cons y mark' others' =>
          simp only [Separated.tokens, List.append_assoc, List.cons_append] at h
          obtain ⟨rfl, htail⟩ := separates_field (stops_sym mark _ (by decide))
            (stops_sym mark' _ (by decide)) h
          obtain ⟨rfl, hothers⟩ := terminal_cons_inj htail
          obtain ⟨rfl, rfl, rfl, rfl⟩ := ih hothers
          exact ⟨rfl, rfl, rfl, rfl⟩

/-- The fields of a structure can be told apart from the closing brace behind them. -/
theorem Fields.append_inj {a b : Fields} {c d : Sym "\x7d"} {r s : List Token}
    (h : a.tokens ++ c.1 :: r = b.tokens ++ d.1 :: s) : a = b ∧ c = d ∧ r = s := by
  rcases a with - | ⟨fs, o⟩
  · rcases b with - | ⟨gs, u⟩
    · obtain ⟨rfl, rfl⟩ := terminal_cons_inj h
      exact ⟨rfl, rfl, rfl⟩
    · simp only [Fields.tokens, List.append_assoc, List.nil_append] at h
      exact absurd h (ne_fields_append c gs _ _)
  · rcases b with - | ⟨gs, u⟩
    · simp only [Fields.tokens, List.append_assoc, List.nil_append] at h
      exact absurd h.symm (ne_fields_append d fs _ _)
    · simp only [Fields.tokens, List.append_assoc] at h
      obtain ⟨rfl, rfl, rfl, rfl⟩ := separated_trailing_inj h
      exact ⟨rfl, rfl, rfl⟩

/-! ### Bodies -/

/-- A run that a token with the property `stop` ends at depth zero can be told apart from it: the
shorter one of two such runs would meet such a token inside the longer one. -/
theorem Encloses.append_inj {stop : Token → Bool} {a b : List Token} (ha : Encloses stop a)
    (hb : Encloses stop b) {c d : Token} (hc : stop c = true) (hd : stop d = true)
    {r s : List Token} (h : a ++ c :: r = b ++ d :: s) : a = b ∧ c = d ∧ r = s := by
  have hmeets : ∀ {a b : List Token}, Encloses stop a → Encloses stop b → ∀ {c : Token},
      stop c = true → ∀ {t : List Token}, b ≠ a ++ c :: t := by
    intro a b ha hb c hc t heq
    have hfalse := hb.unmet a c t heq ha.balanced
    rw [hc] at hfalse
    exact Bool.noConfusion hfalse
  rcases List.append_eq_append_iff.1 h with ⟨t, hbt, hct⟩ | ⟨t, hat, hdt⟩
  · cases t with
    | nil =>
        injection hct with hcd hrs
        exact ⟨by simpa using hbt.symm, hcd, hrs⟩
    | cons x t =>
        injection hct with hcx _
        exact absurd (hcx ▸ hbt) (hmeets ha hb hc)
  · cases t with
    | nil =>
        injection hdt with hdc hsr
        exact ⟨by simpa using hat, hdc.symm, hsr.symm⟩
    | cons x t =>
        injection hdt with hdx _
        exact absurd (hdx ▸ hat) (hmeets hb ha hd)

/-- No expression starts like a block. -/
theorem opening_ne_expression {opening : Sym "\x7b"} {inside r s : List Token}
    (occupied : inside ≠ []) (unbraced : inside.head?.any (·.isSymbol "\x7b") = false) :
    opening.1 :: r ≠ inside ++ s := by
  intro h
  obtain ⟨t, ts, rfl⟩ := List.exists_cons_of_ne_nil occupied
  injection h with hhead _
  simp [← hhead, opening.2] at unbraced

/-- A body can be told apart from what does not start with a semicolon. -/
theorem separates_body : Separates Body.tokens (·.isSymbol ";") := by
  intro a b r s hr hs h
  cases a with
  | block opening inside enclosed closing semicolon =>
      cases b with
      | block opening' inside' enclosed' closing' semicolon' =>
          simp only [Body.tokens, List.cons_append, List.append_assoc] at h
          obtain ⟨rfl, hinside⟩ := terminal_cons_inj h
          obtain ⟨rfl, hclosing, htail⟩ :=
            enclosed.append_inj enclosed' closing.2 closing'.2 hinside
          obtain rfl : closing = closing' := Subtype.ext hclosing
          obtain ⟨rfl, rfl⟩ := separates_optional _ hr hs htail
          exact ⟨rfl, rfl⟩
      | expression inside' enclosed' occupied unbraced semicolon' =>
          simp only [Body.tokens, List.cons_append, List.append_assoc] at h
          exact absurd h (opening_ne_expression occupied unbraced)
  | expression inside enclosed occupied unbraced semicolon =>
      cases b with
      | block opening' inside' enclosed' closing' semicolon' =>
          simp only [Body.tokens, List.cons_append, List.append_assoc] at h
          exact absurd h.symm (opening_ne_expression occupied unbraced)
      | expression inside' enclosed' occupied' unbraced' semicolon' =>
          simp only [Body.tokens, List.cons_append, List.append_assoc, List.nil_append] at h
          obtain ⟨rfl, hsemicolon, rfl⟩ := enclosed.append_inj enclosed'
            (by simp [endsExpression, semicolon.2]) (by simp [endsExpression, semicolon'.2]) h
          obtain rfl : semicolon = semicolon' := Subtype.ext hsemicolon
          exact ⟨rfl, rfl⟩

/-! ### Items -/

/-- What follows an item does not start with a symbol. -/
theorem Stops.of_opensItem {ts : List Token} (h : Stops (fun t => !t.opensItem) ts) (s : String) :
    Stops (·.isSymbol s) ts := by
  cases ts with
  | nil => rfl
  | cons t ts =>
      have ht : t.opensItem = true := by simpa using h
      exact stops_cons.2 (Token.isSymbol_eq_false_of_opensItem ht)

/-- A semicolon that may be left out does not go on with a name. -/
theorem stops_dot_optional {o : Option (Sym ";")} {ts : List Token}
    (h : Stops (fun t => !t.opensItem) ts) : Stops (·.isSymbol ".") (optional o ++ ts) := by
  cases o with
  | none => exact h.of_opensItem "."
  | some mark => exact stops_sym mark ts (by decide)

/-- A use clause can be told apart from the items behind it. -/
theorem separates_use : Separates Use.tokens fun t => !t.opensItem := by
  rintro ⟨keyword, name, semicolon⟩ ⟨keyword', name', semicolon'⟩ r s hr hs h
  simp only [Use.tokens, List.cons_append, List.append_assoc] at h
  obtain ⟨rfl, hname⟩ := terminal_cons_inj h
  obtain ⟨rfl, htail⟩ :=
    separates_name (stops_dot_optional hr) (stops_dot_optional hs) hname
  obtain ⟨rfl, rfl⟩ := separates_optional _ (hr.of_opensItem ";") (hs.of_opensItem ";") htail
  exact ⟨rfl, rfl⟩

/-- A structure can be told apart from the items behind it. -/
theorem separates_struct : Separates Struct.tokens fun t => !t.opensItem := by
  rintro ⟨keyword, name, opening, fields, closing, semicolon⟩
    ⟨keyword', name', opening', fields', closing', semicolon'⟩ r s hr hs h
  simp only [Struct.tokens, List.cons_append, List.append_assoc] at h
  obtain ⟨rfl, hname⟩ := terminal_cons_inj h
  obtain ⟨rfl, hopening⟩ := terminal_cons_inj hname
  obtain ⟨rfl, hfields⟩ := terminal_cons_inj hopening
  obtain ⟨rfl, rfl, htail⟩ := Fields.append_inj hfields
  obtain ⟨rfl, rfl⟩ := separates_optional _ (hr.of_opensItem ";") (hs.of_opensItem ";") htail
  exact ⟨rfl, rfl⟩

/-- A declared result can be told apart from the arrow behind it. -/
theorem Result.append_inj {a b : Result} {c d : Sym "->"} {r s : List Token}
    (h : a.tokens ++ c.1 :: r = b.tokens ++ d.1 :: s) : a = b ∧ c = d ∧ r = s := by
  have harrow : ∀ (arrow : Sym "->") (keyword : Word "returns") (ts us : List Token),
      arrow.1 :: ts ≠ keyword.1 :: us :=
    terminal_cons_ne fun _ => Token.isKeyword_eq_false_of_isSymbol
  rcases a with - | ⟨keyword, type⟩
  · rcases b with - | ⟨keyword', type'⟩
    · obtain ⟨rfl, rfl⟩ := terminal_cons_inj h
      exact ⟨rfl, rfl, rfl⟩
    · exact absurd h (harrow c keyword' _ _)
  · rcases b with - | ⟨keyword', type'⟩
    · exact absurd h.symm (harrow d keyword _ _)
    · simp only [Result.tokens, List.cons_append] at h
      obtain ⟨rfl, htype⟩ := terminal_cons_inj h
      obtain ⟨rfl, hclosing⟩ := TypeUse.append_inj type type' (stops_sym c r (by decide))
        (stops_sym d s (by decide)) htype
      obtain ⟨rfl, rfl⟩ := terminal_cons_inj hclosing
      exact ⟨rfl, rfl, rfl⟩

/-- A function can be told apart from the items behind it. -/
theorem separates_function : Separates Function.tokens fun t => !t.opensItem := by
  rintro ⟨keyword, name, opening, params, closing, result, arrow, body⟩
    ⟨keyword', name', opening', params', closing', result', arrow', body'⟩ r s hr hs h
  simp only [Function.tokens, List.cons_append, List.append_assoc] at h
  obtain ⟨rfl, hname⟩ := terminal_cons_inj h
  obtain ⟨rfl, hopening⟩ := terminal_cons_inj hname
  obtain ⟨rfl, hparams⟩ := terminal_cons_inj hopening
  obtain ⟨rfl, rfl, hresult⟩ := Params.append_inj hparams
  obtain ⟨rfl, rfl, hbody⟩ := Result.append_inj hresult
  obtain ⟨rfl, rfl⟩ := separates_body (hr.of_opensItem ";") (hs.of_opensItem ";") hbody
  exact ⟨rfl, rfl⟩

/-- Keywords that are written differently are different. -/
theorem word_cons_ne {s u : String} (hne : s ≠ u) (v : Word s) (w : Word u) (r t : List Token) :
    v.1 :: r ≠ w.1 :: t :=
  terminal_cons_ne (fun _ ht => Token.isKeyword_eq_false_of_ne ht hne) v w r t

/-- An item can be told apart from the items behind it. -/
theorem separates_item : Separates Item.tokens fun t => !t.opensItem := by
  intro a b r s hr hs h
  cases a with
  | use u =>
      cases b with
      | use v =>
          obtain ⟨rfl, rfl⟩ := separates_use hr hs h
          exact ⟨rfl, rfl⟩
      | struct d => exact absurd h (word_cons_ne (by decide) u.keyword d.keyword _ _)
      | function d => exact absurd h (word_cons_ne (by decide) u.keyword d.keyword _ _)
  | struct d =>
      cases b with
      | use v => exact absurd h (word_cons_ne (by decide) d.keyword v.keyword _ _)
      | struct e =>
          obtain ⟨rfl, rfl⟩ := separates_struct hr hs h
          exact ⟨rfl, rfl⟩
      | function e => exact absurd h (word_cons_ne (by decide) d.keyword e.keyword _ _)
  | function d =>
      cases b with
      | use v => exact absurd h (word_cons_ne (by decide) d.keyword v.keyword _ _)
      | struct e => exact absurd h (word_cons_ne (by decide) d.keyword e.keyword _ _)
      | function e =>
          obtain ⟨rfl, rfl⟩ := separates_function hr hs h
          exact ⟨rfl, rfl⟩

/-- An item starts with a keyword that opens one. -/
theorem Item.exists_opensItem (i : Item) :
    ∃ (t : Token) (ts : List Token), i.tokens = t :: ts ∧ t.opensItem = true := by
  cases i with
  | use u => exact ⟨u.keyword.1, _, rfl, by simp [Token.opensItem, u.keyword.2]⟩
  | struct d => exact ⟨d.keyword.1, _, rfl, by simp [Token.opensItem, d.keyword.2]⟩
  | function d => exact ⟨d.keyword.1, _, rfl, by simp [Token.opensItem, d.keyword.2]⟩

/-- Items are followed by items. -/
theorem stops_items (items : List Item) :
    Stops (fun t => !t.opensItem) (items.flatMap Item.tokens) := by
  cases items with
  | nil => rfl
  | cons i items =>
      obtain ⟨t, ts, hi, ht⟩ := i.exists_opensItem
      simp [hi, ht]

/-- Items can be told apart from each other. -/
theorem items_inj {as bs : List Item} (h : as.flatMap Item.tokens = bs.flatMap Item.tokens) :
    as = bs := by
  induction as generalizing bs with
  | nil =>
      cases bs with
      | nil => rfl
      | cons b bs =>
          obtain ⟨t, ts, hb, -⟩ := b.exists_opensItem
          simp [hb] at h
  | cons a as ih =>
      cases bs with
      | nil =>
          obtain ⟨t, ts, ha, -⟩ := a.exists_opensItem
          simp [ha] at h
      | cons b bs =>
          obtain ⟨rfl, htail⟩ := separates_item (stops_items as) (stops_items bs) h
          rw [ih htail]

/-! ### Files -/

/-- **Derivations are unique.** Two derivations of files with the same tokens are the same. -/
theorem File.eq_of_tokens_eq {a b : File} (h : a.tokens = b.tokens) : a = b := by
  obtain ⟨keyword, name, semicolon, items⟩ := a
  obtain ⟨keyword', name', semicolon', items'⟩ := b
  simp only [File.tokens] at h
  obtain ⟨rfl, hname⟩ := terminal_cons_inj h
  obtain ⟨rfl, htail⟩ := separates_name (stops_dot_optional (stops_items items))
    (stops_dot_optional (stops_items items')) hname
  obtain ⟨rfl, hitems⟩ := separates_optional _ ((stops_items items).of_opensItem ";")
    ((stops_items items').of_opensItem ";") htail
  rw [items_inj hitems]

end Grammar

end Npl
