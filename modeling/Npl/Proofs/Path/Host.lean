import Mathlib.Data.List.TakeWhile
import Npl.Path.Host
import Npl.Proofs.Except
import Npl.Proofs.Text.Pieces

/-!
# What is a host in square brackets

The check of what stands in square brackets accepts exactly what the grammar of addresses gives: an
address of a version to come, or one of version 6, which has eight words, or fewer on the two sides of
two colons.

## Main definitions

* `Host.Words` — a row of words with colons between them.
* `Host.Address` — an address of version 6 without a zone.
* `Host.IsHost` — what can stand in square brackets.

## Main results

* `Host.check_eq_ok_iff` — the check accepts these texts.
-/

namespace Npl.Host

open Text (pieces)

/-! ### The grammar -/

/-- A number up to 255 in decimal digits. -/
def Octet (cs : List Char) : Prop :=
  ∃ n, n < 256 ∧ Nat.toDigits 10 n = cs

/-- An address of version 4. -/
def Version4 (cs : List Char) : Prop :=
  ∃ a b c d, Octet a ∧ Octet b ∧ Octet c ∧ Octet d ∧
    cs = a ++ '.' :: (b ++ '.' :: (c ++ '.' :: d))

/-- Up to four hexadecimal digits. -/
structure Word (cs : List Char) : Prop where
  nonempty : cs ≠ []
  digits : ∀ c ∈ cs, isHexDigit c = true
  short : cs.length ≤ 4

/-- A row of so many words with colons between them. Where an address ends, the last two words can be
written like an address of version 4. -/
inductive Words : Bool → Nat → List Char → Prop
  | word {ending : Bool} {w : List Char} (hword : Word w) : Words ending 1 w
  | version4 {w : List Char} (haddress : Version4 w) : Words true 2 w
  | more {ending : Bool} {n : Nat} {w cs : List Char} (hword : Word w) (hrest : Words ending n cs) :
      Words ending (n + 1) (w ++ ':' :: cs)

/-- A row of words, or nothing. -/
def Side (ending : Bool) (n : Nat) (cs : List Char) : Prop :=
  cs = [] ∧ n = 0 ∨ cs ≠ [] ∧ Words ending n cs

/-- An address of version 6 without a zone. -/
inductive Address : List Char → Prop
  | full {cs : List Char} (hwords : Words true 8 cs) : Address cs
  | gap {m n : Nat} {front back : List Char} (hfront : Side false m front) (hback : Side true n back)
      (hroom : m + n < 8) : Address (front ++ ':' :: ':' :: back)

/-- An address of version 6. -/
def Version6 (cs : List Char) : Prop :=
  Address cs ∨ ∃ address zone, cs = address ++ '%' :: zone ∧ Address address ∧ zone ≠ [] ∧ '%' ∉ zone

/-- An address of a version to come. -/
def Future (cs : List Char) : Prop :=
  ∃ digits rest, cs = 'v' :: (digits ++ '.' :: rest) ∧ digits ≠ [] ∧
    (∀ c ∈ digits, isHexDigit c = true) ∧ rest ≠ []

/-- What can stand in square brackets. -/
def IsHost (cs : List Char) : Prop :=
  Future cs ∨ Version6 cs

/-! ### Addresses of version 4 -/

theorem isOctet_iff {cs : List Char} : isOctet cs = true ↔ Octet cs := by
  simp [isOctet, Octet]

/-- The characters of a number are digits. -/
theorem isDigit_of_octet {cs : List Char} (h : Octet cs) : ∀ c ∈ cs, c.isDigit = true := by
  obtain ⟨n, -, rfl⟩ := h
  exact fun c hc => Nat.isDigit_of_mem_toDigits (by omega) (by omega) hc

/-- A text with two pieces or more is the first one, the separator and a text with the others. -/
theorem exists_of_pieces_eq_cons {separator : Char} {cs w : List Char} {ws : List (List Char)}
    (h : pieces separator cs = w :: ws) (hne : ws ≠ []) :
    ∃ rest, cs = w ++ separator :: rest ∧ pieces separator rest = ws := by
  have hjoined := Text.intercalate_pieces separator cs
  obtain ⟨v, vs, rfl⟩ := List.exists_cons_of_ne_nil hne
  rw [h, List.intercalate_cons_cons, List.append_assoc, List.singleton_append] at hjoined
  refine ⟨_, hjoined.symm, Text.pieces_intercalate (fun u hu => ?_) (by simp)⟩
  exact Text.not_mem_of_mem_pieces (h ▸ List.mem_cons_of_mem _ hu)

/-- A text with one piece is that piece. -/
theorem eq_of_pieces_eq_singleton {separator : Char} {cs w : List Char}
    (h : pieces separator cs = [w]) : cs = w := by
  have hjoined := Text.intercalate_pieces separator cs
  rw [h, List.intercalate_singleton] at hjoined
  exact hjoined.symm

theorem isVersion4_iff {cs : List Char} : isVersion4 cs = true ↔ Version4 cs := by
  simp only [isVersion4, Bool.and_eq_true, decide_eq_true_eq, List.all_eq_true]
  constructor
  · rintro ⟨hlength, hoctets⟩
    obtain ⟨a, b, c, d, hpieces⟩ : ∃ a b c d, pieces '.' cs = [a, b, c, d] := by
      match hpieces : pieces '.' cs, hlength with
      | [a, b, c, d], _ => exact ⟨a, b, c, d, rfl⟩
    obtain ⟨behindA, rfl, hb⟩ := exists_of_pieces_eq_cons hpieces (by simp)
    obtain ⟨behindB, rfl, hc⟩ := exists_of_pieces_eq_cons hb (by simp)
    obtain ⟨behindC, rfl, hd⟩ := exists_of_pieces_eq_cons hc (by simp)
    obtain rfl := eq_of_pieces_eq_singleton hd
    rw [hpieces] at hoctets
    simp only [List.mem_cons, List.not_mem_nil, or_false, forall_eq_or_imp, forall_eq,
      isOctet_iff] at hoctets
    exact ⟨a, b, c, _, hoctets.1, hoctets.2.1, hoctets.2.2.1, hoctets.2.2.2, rfl⟩
  · rintro ⟨a, b, c, d, ha, hb, hc, hd, rfl⟩
    have hdotless : ∀ {w : List Char}, Octet w → '.' ∉ w := fun hw hdot =>
      absurd (isDigit_of_octet hw _ hdot) (by decide)
    have hpieces : pieces '.' (a ++ '.' :: (b ++ '.' :: (c ++ '.' :: d))) = [a, b, c, d] := by
      rw [Text.pieces_append_cons (hdotless ha), Text.pieces_append_cons (hdotless hb),
        Text.pieces_append_cons (hdotless hc), Text.pieces_of_not_mem (hdotless hd)]
    rw [hpieces]
    exact ⟨rfl, by simp [isOctet_iff, ha, hb, hc, hd]⟩

/-! ### Characters of addresses -/

/-- Whether a character can stand in an address without a zone. -/
def InAddress (c : Char) : Prop :=
  isHexDigit c = true ∨ c = '.' ∨ c = ':'

/-- An address of version 4 consists of digits and dots. -/
theorem mem_version4 {cs : List Char} (h : Version4 cs) : ∀ c ∈ cs, c.isDigit = true ∨ c = '.' := by
  obtain ⟨a, b, c, d, ha, hb, hc, hd, rfl⟩ := h
  intro x hx
  simp only [List.mem_append, List.mem_cons] at hx
  rcases hx with hx | rfl | hx | rfl | hx | rfl | hx
  · exact .inl (isDigit_of_octet ha x hx)
  · exact .inr rfl
  · exact .inl (isDigit_of_octet hb x hx)
  · exact .inr rfl
  · exact .inl (isDigit_of_octet hc x hx)
  · exact .inr rfl
  · exact .inl (isDigit_of_octet hd x hx)

theorem Words.inAddress {ending : Bool} {n : Nat} {cs : List Char} (h : Words ending n cs) :
    ∀ c ∈ cs, InAddress c := by
  induction h with
  | word hword => exact fun c hc => .inl (hword.digits c hc)
  | version4 haddress =>
      intro c hc
      rcases mem_version4 haddress c hc with hdigit | hdot
      · exact .inl (by simp [isHexDigit, hdigit])
      · exact .inr (.inl hdot)
  | more hword _ ih =>
      intro c hc
      rcases List.mem_append.1 hc with hc | hc
      · exact .inl (hword.digits c hc)
      · rcases List.mem_cons.1 hc with rfl | hc
        · exact .inr (.inr rfl)
        · exact ih c hc

theorem Side.inAddress {ending : Bool} {n : Nat} {cs : List Char} (h : Side ending n cs) :
    ∀ c ∈ cs, InAddress c := by
  rcases h with ⟨rfl, -⟩ | ⟨-, hwords⟩
  · simp
  · exact hwords.inAddress

theorem Address.inAddress {cs : List Char} (h : Address cs) : ∀ c ∈ cs, InAddress c := by
  cases h with
  | full hwords => exact hwords.inAddress
  | gap hfront hback _ =>
      intro c hc
      simp only [List.mem_append, List.mem_cons] at hc
      rcases hc with hc | rfl | rfl | hc
      · exact hfront.inAddress c hc
      · exact .inr (.inr rfl)
      · exact .inr (.inr rfl)
      · exact hback.inAddress c hc

/-- There is a colon in an address of version 6. -/
theorem Address.colon_mem {cs : List Char} (h : Address cs) : ':' ∈ cs := by
  cases h with
  | full hwords =>
      cases hwords with
      | more _ _ => simp
  | gap _ _ _ => simp

/-! ### Words -/

theorem isWord_iff {cs : List Char} : isWord cs = true ↔ Word cs := by
  simp only [isWord, ne_eq, decide_not, Bool.and_eq_true, Bool.not_eq_true', decide_eq_false_iff_not,
    List.all_eq_true, decide_eq_true_eq]
  exact ⟨fun ⟨⟨hne, hdigits⟩, hshort⟩ => ⟨hne, hdigits, hshort⟩,
    fun h => ⟨⟨h.nonempty, h.digits⟩, h.short⟩⟩

/-- There is no colon in a word. -/
theorem Word.colonless {w : List Char} (h : Word w) : ':' ∉ w :=
  fun hcolon => absurd (h.digits _ hcolon) (by decide)

/-- There is no colon in an address of version 4. -/
theorem colonless_of_version4 {w : List Char} (h : Version4 w) : ':' ∉ w :=
  fun hcolon => absurd (mem_version4 h _ hcolon) (by decide)

/-- An address of version 4 is no word. -/
theorem not_word_of_version4 {w : List Char} (h : Version4 w) : ¬ Word w := by
  obtain ⟨a, b, c, d, -, -, -, -, rfl⟩ := h
  exact fun hword => absurd (hword.digits '.' (by simp)) (by decide)

/-- The words between colons are counted. -/
theorem wordCount?_eq_some_iff {ending : Bool} {n : Nat} {cs : List Char} :
    wordCount? ending (pieces ':' cs) = some n ↔ Words ending n cs := by
  constructor
  · intro h
    generalize hparts : pieces ':' cs = parts at h
    induction parts generalizing cs n with
    | nil => simp [wordCount?] at h
    | cons w ws ih =>
        by_cases hne : ws = []
        · subst hne
          obtain rfl := eq_of_pieces_eq_singleton hparts
          rw [wordCount?] at h
          split at h
          · next hword =>
              obtain rfl := Option.some.inj h
              exact .word (isWord_iff.1 hword)
          · split at h
            · next hversion =>
                obtain rfl := Option.some.inj h
                obtain ⟨rfl, hversion⟩ := (Bool.and_eq_true _ _).mp hversion
                exact .version4 (isVersion4_iff.1 hversion)
            · simp at h
        · obtain ⟨rest, rfl, hrest⟩ := exists_of_pieces_eq_cons hparts hne
          obtain ⟨v, vs, rfl⟩ := List.exists_cons_of_ne_nil hne
          rw [wordCount?] at h
          · split at h
            · next hword =>
                obtain ⟨m, hm, rfl⟩ := Option.map_eq_some_iff.1 h
                exact .more (isWord_iff.1 hword) (ih hrest hm)
            · simp at h
          · simp
  · intro h
    induction h with
    | word hword =>
        rw [Text.pieces_of_not_mem hword.colonless, wordCount?, if_pos (isWord_iff.2 hword)]
    | version4 haddress =>
        have hword := mt isWord_iff.1 (not_word_of_version4 haddress)
        rw [Text.pieces_of_not_mem (colonless_of_version4 haddress), wordCount?, if_neg hword,
          if_pos (by simpa using isVersion4_iff.2 haddress)]
    | @more ending n w cs hword hrest ih =>
        rw [Text.pieces_append_cons hword.colonless, wordCount?, if_pos (isWord_iff.2 hword), ih]
        · rfl
        · exact Text.pieces_ne_nil ':' cs

theorem sideCount?_eq_some_iff {ending : Bool} {n : Nat} {cs : List Char} :
    sideCount? ending cs = some n ↔ Side ending n cs := by
  unfold sideCount? Side
  split
  · next hnil => simp [hnil, eq_comm]
  · next hnil => simp [hnil, wordCount?_eq_some_iff]

/-! ### The gap -/

/-- A row of words starts with something else than a colon. -/
theorem Words.exists_cons {ending : Bool} {n : Nat} {cs : List Char} (h : Words ending n cs) :
    ∃ c rest, cs = c :: rest ∧ c ≠ ':' := by
  have hstart : ∀ {w : List Char} (rest : List Char), w ≠ [] → ':' ∉ w →
      ∃ c rest', w ++ rest = c :: rest' ∧ c ≠ ':' := by
    intro w rest hne hcolonless
    obtain ⟨c, w, rfl⟩ := List.exists_cons_of_ne_nil hne
    exact ⟨c, w ++ rest, rfl, fun heq => hcolonless (heq ▸ List.mem_cons_self)⟩
  cases h with
  | word hword => simpa using hstart [] hword.nonempty hword.colonless
  | version4 haddress =>
      have hne : cs ≠ [] := by
        obtain ⟨a, b, c, d, -, -, -, -, rfl⟩ := haddress
        simp
      simpa using hstart [] hne (colonless_of_version4 haddress)
  | more hword _ => exact hstart _ hword.nonempty hword.colonless

/-- A character that no two colons start with is passed over. -/
theorem sides?_cons {c : Char} {cs : List Char} (h : c ≠ ':' ∨ ∃ d ds, cs = d :: ds ∧ d ≠ ':') :
    sides? (c :: cs) = (sides? cs).map fun sides => (c :: sides.1, sides.2) := by
  rw [sides?]
  rintro ds rfl rfl
  rcases h with h | ⟨d, ds', heq, hd⟩
  · exact h rfl
  · exact hd (List.cons.inj heq).1.symm

/-- Characters that are no colons are passed over. -/
theorem sides?_append {w : List Char} (hw : ':' ∉ w) (cs : List Char) :
    sides? (w ++ cs) = (sides? cs).map fun sides => (w ++ sides.1, sides.2) := by
  induction w with
  | nil => simp
  | cons c w ih =>
      simp only [List.mem_cons, not_or] at hw
      rw [List.cons_append, sides?_cons (.inl fun heq => hw.1 heq.symm), ih hw.2, Option.map_map]
      rfl

/-- A row of words is passed over. -/
theorem Words.sides?_append {ending : Bool} {n : Nat} {cs : List Char} (h : Words ending n cs)
    (rest : List Char) :
    sides? (cs ++ rest) = (sides? rest).map fun sides => (cs ++ sides.1, sides.2) := by
  induction h with
  | word hword => exact Host.sides?_append hword.colonless rest
  | version4 haddress => exact Host.sides?_append (colonless_of_version4 haddress) rest
  | @more ending n w cs hword hrest ih =>
      obtain ⟨c, cs', rfl, hc⟩ := hrest.exists_cons
      rw [List.append_assoc, Host.sides?_append hword.colonless, List.cons_append,
        sides?_cons (.inr ⟨c, cs' ++ rest, List.cons_append, hc⟩), ih, Option.map_map, Option.map_map]
      simp [Function.comp_def]

/-- What stands on the two sides of two colons is the whole text with them. -/
theorem eq_of_sides? {cs front back : List Char} (h : sides? cs = some (front, back)) :
    cs = front ++ ':' :: ':' :: back := by
  induction cs generalizing front with
  | nil => simp [sides?] at h
  | cons c cs ih =>
      by_cases hpass : c ≠ ':' ∨ ∃ d ds, cs = d :: ds ∧ d ≠ ':'
      · rw [sides?_cons hpass] at h
        obtain ⟨⟨front', back'⟩, hsides, heq⟩ := Option.map_eq_some_iff.1 h
        obtain ⟨rfl, rfl⟩ := Prod.mk.inj heq
        rw [ih hsides]
        rfl
      · simp only [ne_eq, not_or, Decidable.not_not, not_exists, not_and] at hpass
        obtain ⟨rfl, hcs⟩ := hpass
        cases cs with
        | nil => simp [sides?] at h
        | cons d ds =>
            obtain rfl := hcs d ds rfl
            rw [sides?] at h
            obtain ⟨rfl, rfl⟩ := Prod.mk.inj (Option.some.inj h)
            rfl

theorem isWords_iff {cs : List Char} : isWords cs = true ↔ Address cs := by
  unfold isWords
  constructor
  · intro h
    split at h
    · exact .full (wordCount?_eq_some_iff.1 (by simpa using h))
    · next front back hsides =>
        obtain rfl := eq_of_sides? hsides
        split at h
        · next m n hfront hback =>
            exact .gap (sideCount?_eq_some_iff.1 hfront) (sideCount?_eq_some_iff.1 hback)
              (by simpa using h)
        · simp at h
  · intro h
    cases h with
    | full hwords =>
        have hnone : sides? cs = none := by simpa [sides?] using hwords.sides?_append []
        rw [hnone]
        simpa using wordCount?_eq_some_iff.2 hwords
    | @gap m n front back hfront hback hroom =>
        have hsides : sides? (front ++ ':' :: ':' :: back) = some (front, back) := by
          rcases hfront with ⟨rfl, -⟩ | ⟨-, hwords⟩
          · rfl
          · simp [hwords.sides?_append, sides?]
        rw [hsides]
        simp only [sideCount?_eq_some_iff.2 hfront, sideCount?_eq_some_iff.2 hback]
        simpa using hroom

/-! ### Hosts -/

theorem isVersion6_iff {cs : List Char} : isVersion6 cs = true ↔ Version6 cs := by
  have hsplit := List.takeWhile_append_dropWhile (p := fun c => decide (c ≠ '%')) (l := cs)
  unfold isVersion6
  constructor
  · intro h
    split at h
    · exact .inl (isWords_iff.1 h)
    · next c zone hdrop =>
        have hc : c = '%' := by
          have hhead := List.head?_dropWhile_not (fun c => decide (c ≠ '%')) cs
          rw [hdrop] at hhead
          simpa using hhead
        subst hc
        rw [hdrop] at hsplit
        simp only [ne_eq, decide_not, Bool.and_eq_true, Bool.not_eq_true', decide_eq_false_iff_not,
          List.contains_eq_mem] at h
        exact .inr ⟨_, zone, hsplit.symm, isWords_iff.1 (by simpa using h.2), h.1.1, h.1.2⟩
  · intro h
    have hkept : ∀ {address : List Char}, Address address → ∀ c ∈ address, decide (c ≠ '%') = true := by
      intro address haddress c hc
      refine decide_eq_true fun heq => ?_
      subst heq
      exact absurd (haddress.inAddress _ hc) (by unfold InAddress; decide)
    rcases h with haddress | ⟨address, zone, rfl, haddress, hzone, hsingle⟩
    · rw [List.dropWhile_eq_nil_iff.2 (hkept haddress)]
      exact isWords_iff.2 haddress
    · rw [List.dropWhile_append_of_pos (hkept haddress), List.takeWhile_append_of_pos (hkept haddress)]
      simp [hzone, hsingle, isWords_iff.2 haddress]

theorem isFuture_iff {cs : List Char} : isFuture cs = true ↔ Future cs := by
  constructor
  · intro h
    unfold isFuture at h
    split at h
    · next cs =>
        split at h
        · next d ds c rest htake hdrop =>
            have hsplit := List.takeWhile_append_dropWhile (p := isHexDigit) (l := cs)
            rw [htake, hdrop] at hsplit
            refine ⟨d :: ds, c :: rest, by rw [hsplit], by simp, fun x hx => ?_, by simp⟩
            exact List.mem_takeWhile_imp (htake ▸ hx)
        · simp at h
    · simp at h
  · rintro ⟨digits, rest, rfl, hdigits, hhex, hrest⟩
    obtain ⟨d, ds, rfl⟩ := List.exists_cons_of_ne_nil hdigits
    obtain ⟨c, rest, rfl⟩ := List.exists_cons_of_ne_nil hrest
    have hdot : isHexDigit '.' = false := by decide
    rw [isFuture, List.takeWhile_append_of_pos hhex, List.dropWhile_append_of_pos hhex]
    simp [hdot]

/-- An address of version 6 starts with another letter than one of a version to come, and is none of
version 4. -/
theorem Version6.distinct {cs : List Char} (h : Version6 cs) :
    cs.head? ≠ some 'v' ∧ ¬ Version4 cs := by
  obtain ⟨address, rest, rfl, haddress⟩ : ∃ address rest, cs = address ++ rest ∧ Address address := by
    rcases h with haddress | ⟨address, zone, rfl, haddress, -, -⟩
    · exact ⟨cs, [], by simp, haddress⟩
    · exact ⟨address, _, rfl, haddress⟩
  refine ⟨fun hv => ?_, fun hversion => ?_⟩
  · obtain ⟨c, address, rfl⟩ := List.exists_cons_of_ne_nil (List.ne_nil_of_mem haddress.colon_mem)
    obtain rfl : c = 'v' := by simpa using hv
    exact absurd (haddress.inAddress _ List.mem_cons_self) (by unfold InAddress; decide)
  · exact colonless_of_version4 hversion (List.mem_append_left _ haddress.colon_mem)

/-- **The check accepts the hosts** that can stand in square brackets. -/
theorem check_eq_ok_iff {cs : List Char} : check cs = .ok () ↔ IsHost cs := by
  unfold check IsHost
  split
  · next hv =>
      rw [← isFuture_iff]
      have hother : ¬ Version6 cs := fun h => h.distinct.1 hv
      split
      · next hfuture => simp [hfuture]
      · next hfuture => simp [hfuture, hother]
  next hv =>
  have hfuture : ¬ Future cs := by
    rintro ⟨digits, rest, rfl, -⟩
    exact hv rfl
  split
  · next hversion =>
      have hother : ¬ Version6 cs := fun h => h.distinct.2 (isVersion4_iff.1 hversion)
      simp [hfuture, hother]
  · rw [← isVersion6_iff]
    split
    · next hversion => simp [hversion]
    · next hversion => simp [hversion, hfuture]

/-- Two colons stand for words that are zero, but there must be some. -/
example : check "1:2:3:4:5:6:7::".toList = .ok () ∧ check "1:2:3:4:5:6:7::8".toList ≠ .ok () := by
  decide +kernel

end Npl.Host
