import Npl.Proofs.Except
import Npl.Text.Utf8

/-!
# Reading UTF-8 back

What was written in UTF-8 is read back as it was. The first byte of a character announces the right
number of bytes, and the bounds for the second byte admit it since no character is a surrogate. These
bounds also exclude everything else, so bytes that are read as a text are what it is written with.

## Main results

* `Utf8.split_encode` — the pieces of written text are its characters.
* `Utf8.decodeLossy_encode` — written text is read back.
* `Utf8.decode_eq_ok_iff` — bytes are read as a text exactly if it is written with them.
-/

namespace Npl.Text.Utf8

/-- The code of a character is no surrogate, and not beyond the last one. -/
theorem toNat_valid (c : Char) :
    c.toNat < 0xD800 ∨ 0xDFFF < c.toNat ∧ c.toNat < 0x110000 := by
  have h := c.valid
  simpa [UInt32.isValidChar, Nat.isValidChar] using h

theorem toNat_ofNat_of_lt {n : Nat} (h : n < 0x100) : (UInt8.ofNat n).toNat = n := by
  simp only [UInt8.toNat_ofNat']
  omega

/-- A continuation byte between the bounds is taken. -/
theorem continuation_succ {count low high bits n : Nat} {bs : List UInt8} (hn : n < 0x100)
    (hlow : low ≤ n) (hhigh : n ≤ high) :
    continuation (count + 1) low high bits (.ofNat n :: bs) =
      ((continuation count 0x80 0xBF (bits * 0x40 + n % 0x40) bs).1 + 1,
        (continuation count 0x80 0xBF (bits * 0x40 + n % 0x40) bs).2) := by
  rw [continuation, toNat_ofNat_of_lt hn, if_pos ⟨hlow, hhigh⟩]

/-- The first byte of three announces them, and admits the second one. -/
theorem announced?_three {n : Nat} (hlow : 0x800 ≤ n) (hhigh : n < 0x10000)
    (hvalid : n < 0xD800 ∨ 0xDFFF < n) :
    ∃ low high, announced? (0xE0 + n / 0x1000) = some ⟨2, low, high, n / 0x1000⟩ ∧
      low ≤ 0x80 + n / 0x40 % 0x40 ∧ 0x80 + n / 0x40 % 0x40 ≤ high := by
  unfold announced?
  rw [if_neg (by omega), if_neg (by omega), if_neg (by omega)]
  by_cases h0 : n / 0x1000 = 0
  · exact ⟨0xA0, 0xBF, by simp [h0], by omega, by omega⟩
  · rw [if_neg (by omega)]
    by_cases hD : n / 0x1000 = 0xD
    · exact ⟨0x80, 0x9F, by simp [hD], by omega, by omega⟩
    · rw [if_neg (by omega), if_pos (by omega)]
      exact ⟨0x80, 0xBF, by simp, by omega, by omega⟩

/-- The first byte of four announces them, and admits the second one. -/
theorem announced?_four {n : Nat} (hlow : 0x10000 ≤ n) (hhigh : n < 0x110000) :
    ∃ low high, announced? (0xF0 + n / 0x40000) = some ⟨3, low, high, n / 0x40000⟩ ∧
      low ≤ 0x80 + n / 0x1000 % 0x40 ∧ 0x80 + n / 0x1000 % 0x40 ≤ high := by
  unfold announced?
  rw [if_neg (by omega), if_neg (by omega), if_neg (by omega), if_neg (by omega),
    if_neg (by omega), if_neg (by omega)]
  by_cases h0 : n / 0x40000 = 0
  · exact ⟨0x90, 0xBF, by simp [h0], by omega, by omega⟩
  · rw [if_neg (by omega)]
    by_cases h4 : n / 0x40000 = 4
    · exact ⟨0x80, 0x8F, by simp [h4], by omega, by omega⟩
    · rw [if_pos (by omega)]
      exact ⟨0x80, 0xBF, by simp, by omega, by omega⟩

/-- The bytes of a character are read as that character. -/
theorem readChar_encodeChar (c : Char) (bs : List UInt8) :
    ∃ b rest, encodeChar c = b :: rest ∧ readChar b (rest ++ bs) = (rest.length, .ok c) := by
  have hvalid := toNat_valid c
  have hc : Char.ofNat c.toNat = c := Char.ofNat_toNat c
  unfold encodeChar
  generalize hn : c.toNat = n at hvalid hc
  simp only
  split
  · next h1 =>
      refine ⟨_, _, rfl, ?_⟩
      have ha : announced? n = some ⟨0, 0, 0, n⟩ := by simp [announced?, h1]
      simp [readChar, toNat_ofNat_of_lt (show n < 0x100 by omega), ha, continuation, Except.map, hc]
  · split
    · next h1 h2 =>
        refine ⟨_, _, rfl, ?_⟩
        have hb : 0xC0 + n / 0x40 < 0x100 := by omega
        have ha : announced? (0xC0 + n / 0x40) = some ⟨1, 0x80, 0xBF, n / 0x40⟩ := by
          unfold announced?
          rw [if_neg (by omega), if_neg (by omega), if_pos (by omega)]
          simp
        have hsum : n / 0x40 * 0x40 + (0x80 + n % 0x40) % 0x40 = n := by omega
        simp only [readChar, toNat_ofNat_of_lt hb, ha, List.cons_append, List.nil_append]
        rw [continuation_succ (by omega) (by omega) (by omega), hsum]
        simp [continuation, Except.map, hc]
    · split
      · next h1 h2 h3 =>
          refine ⟨_, _, rfl, ?_⟩
          obtain ⟨low, high, ha, hlow, hhigh⟩ := announced?_three (n := n) (by omega) h3 (by omega)
          have hsum : (n / 0x1000 * 0x40 + (0x80 + n / 0x40 % 0x40) % 0x40) * 0x40 +
              (0x80 + n % 0x40) % 0x40 = n := by omega
          simp only [readChar, toNat_ofNat_of_lt (show 0xE0 + n / 0x1000 < 0x100 by omega), ha,
            List.cons_append, List.nil_append]
          rw [continuation_succ (by omega) hlow hhigh,
            continuation_succ (by omega) (by omega) (by omega), hsum]
          simp [continuation, Except.map, hc]
      · next h1 h2 h3 =>
          refine ⟨_, _, rfl, ?_⟩
          obtain ⟨low, high, ha, hlow, hhigh⟩ := announced?_four (n := n) (by omega) (by omega)
          have hsum : ((n / 0x40000 * 0x40 + (0x80 + n / 0x1000 % 0x40) % 0x40) * 0x40 +
              (0x80 + n / 0x40 % 0x40) % 0x40) * 0x40 + (0x80 + n % 0x40) % 0x40 = n := by omega
          simp only [readChar, toNat_ofNat_of_lt (show 0xF0 + n / 0x40000 < 0x100 by omega), ha,
            List.cons_append, List.nil_append]
          rw [continuation_succ (by omega) hlow hhigh,
            continuation_succ (by omega) (by omega) (by omega),
            continuation_succ (by omega) (by omega) (by omega), hsum]
          simp [continuation, Except.map, hc]

/-- The pieces of written text are its characters. -/
theorem split_encode (cs : List Char) :
    split (encode cs) = cs.map fun c => ⟨encodeChar c, .ok c⟩ := by
  induction cs with
  | nil => simp [encode, split]
  | cons c cs ih =>
      obtain ⟨b, rest, hbytes, hread⟩ := readChar_encodeChar c (encode cs)
      have hcons : encode (c :: cs) = b :: (rest ++ encode cs) := by
        rw [encode, List.flatMap_cons, hbytes]
        rfl
      rw [hcons, split, hread]
      simp [hbytes, ih]

/-- Written text is read back, with nothing to replace. -/
theorem decodeLossy_encode (cs : List Char) : decodeLossy (encode cs) = cs := by
  rw [decodeLossy, split_encode, List.map_map]
  exact List.map_id cs

/-! ### What is read is what was written -/

theorem ofNat_eq_of_toNat {n : Nat} {b : UInt8} (h : n = b.toNat) : UInt8.ofNat n = b := by
  rw [h, UInt8.ofNat_toNat]

/-- A continuation that comes to a number has its first byte between the bounds. -/
theorem continuation_succ_eq_ok {count low high bits taken n : Nat} {bs : List UInt8}
    (h : continuation (count + 1) low high bits bs = (taken, .ok n)) :
    ∃ b rest taken', bs = b :: rest ∧ low ≤ b.toNat ∧ b.toNat ≤ high ∧ taken = taken' + 1 ∧
      continuation count 0x80 0xBF (bits * 0x40 + b.toNat % 0x40) rest = (taken', .ok n) := by
  cases bs with
  | nil => simp [continuation] at h
  | cons b rest =>
      rw [continuation] at h
      split at h
      · next hbounds =>
          obtain ⟨htaken, hresult⟩ := Prod.mk.inj h
          exact ⟨b, rest, _, rfl, hbounds.1, hbounds.2, htaken.symm, Prod.ext rfl hresult⟩
      · simp at h

theorem continuation_zero_eq_ok {low high bits taken n : Nat} {bs : List UInt8}
    (h : continuation 0 low high bits bs = (taken, .ok n)) : taken = 0 ∧ n = bits := by
  simpa [continuation, eq_comm] using h

theorem toNat_ofNat_of_valid {n : Nat} (h : n < 0xD800 ∨ 0xDFFF < n ∧ n < 0x110000) :
    (Char.ofNat n).toNat = n := by
  have hvalid : n.isValidChar := h
  rw [Char.ofNat, dif_pos hvalid]
  rfl

/-- What a byte announces, by how many bytes follow. -/
theorem announced?_cases {n : Nat} {a : Announced} (h : announced? n = some a) :
    (a.count = 0 ∧ a.bits = n ∧ n < 0x80) ∨
    (a.count = 1 ∧ a.bits = n - 0xC0 ∧ 0xC2 ≤ n ∧ n < 0xE0 ∧ a.low = 0x80 ∧ a.high = 0xBF) ∨
    (a.count = 2 ∧ a.bits = n - 0xE0 ∧ 0xE0 ≤ n ∧ n < 0xF0 ∧ 0x80 ≤ a.low ∧ a.high ≤ 0xBF ∧
      (n = 0xE0 → 0xA0 ≤ a.low) ∧ (n = 0xED → a.high ≤ 0x9F)) ∨
    (a.count = 3 ∧ a.bits = n - 0xF0 ∧ 0xF0 ≤ n ∧ n < 0xF5 ∧ 0x80 ≤ a.low ∧ a.high ≤ 0xBF ∧
      (n = 0xF0 → 0x90 ≤ a.low) ∧ (n = 0xF4 → a.high ≤ 0x8F)) := by
  unfold announced? at h
  grind

/-- A character that is read is written with the bytes that it was read from. -/
theorem encodeChar_of_readChar {b : UInt8} {bs : List UInt8} {taken : Nat} {c : Char}
    (h : readChar b bs = (taken, .ok c)) : encodeChar c = b :: bs.take taken := by
  unfold readChar at h
  split at h
  · simp at h
  next a ha =>
  obtain ⟨htaken, hresult⟩ := Prod.mk.inj h
  obtain ⟨n, hn, rfl⟩ := map_eq_ok_iff.1 hresult
  have hread : continuation a.count a.low a.high a.bits bs = (taken, .ok n) := Prod.ext htaken hn
  -- The bounds of the second byte exclude overlong forms, surrogates, and what is too great.
  rcases announced?_cases ha with ⟨hcount, hbits, hone⟩ |
    ⟨hcount, hbits, hlow, hhigh, hl, hh⟩ |
    ⟨hcount, hbits, hlow, hhigh, hl, hh, hoverlong, hsurrogate⟩ |
    ⟨hcount, hbits, hlow, hhigh, hl, hh, hoverlong, hbeyond⟩
  · rw [hcount] at hread
    obtain ⟨rfl, rfl⟩ := continuation_zero_eq_ok hread
    have hc : (Char.ofNat a.bits).toNat = a.bits := toNat_ofNat_of_valid (by omega)
    rw [encodeChar, hc, if_pos (by omega), ofNat_eq_of_toNat (b := b) (by omega)]
    rfl
  · rw [hcount] at hread
    obtain ⟨b₁, bs₁, taken₁, rfl, hl₁, hh₁, rfl, hread₁⟩ := continuation_succ_eq_ok hread
    obtain ⟨rfl, hn⟩ := continuation_zero_eq_ok hread₁
    have hc : (Char.ofNat n).toNat = n := toNat_ofNat_of_valid (by omega)
    rw [encodeChar, hc, if_neg (by omega), if_pos (by omega)]
    rw [ofNat_eq_of_toNat (b := b) (by omega), ofNat_eq_of_toNat (b := b₁) (by omega)]
    rfl
  · rw [hcount] at hread
    obtain ⟨b₁, bs₁, taken₁, rfl, hl₁, hh₁, rfl, hread₁⟩ := continuation_succ_eq_ok hread
    obtain ⟨b₂, bs₂, taken₂, rfl, hl₂, hh₂, rfl, hread₂⟩ := continuation_succ_eq_ok hread₁
    obtain ⟨rfl, hn⟩ := continuation_zero_eq_ok hread₂
    have hc : (Char.ofNat n).toNat = n := toNat_ofNat_of_valid (by omega)
    rw [encodeChar, hc, if_neg (by omega), if_neg (by omega), if_pos (by omega)]
    rw [ofNat_eq_of_toNat (b := b) (by omega), ofNat_eq_of_toNat (b := b₁) (by omega),
      ofNat_eq_of_toNat (b := b₂) (by omega)]
    rfl
  · rw [hcount] at hread
    obtain ⟨b₁, bs₁, taken₁, rfl, hl₁, hh₁, rfl, hread₁⟩ := continuation_succ_eq_ok hread
    obtain ⟨b₂, bs₂, taken₂, rfl, hl₂, hh₂, rfl, hread₂⟩ := continuation_succ_eq_ok hread₁
    obtain ⟨b₃, bs₃, taken₃, rfl, hl₃, hh₃, rfl, hread₃⟩ := continuation_succ_eq_ok hread₂
    obtain ⟨rfl, hn⟩ := continuation_zero_eq_ok hread₃
    have hc : (Char.ofNat n).toNat = n := toNat_ofNat_of_valid (by omega)
    rw [encodeChar, hc, if_neg (by omega), if_neg (by omega), if_neg (by omega)]
    rw [ofNat_eq_of_toNat (b := b) (by omega), ofNat_eq_of_toNat (b := b₁) (by omega),
      ofNat_eq_of_toNat (b := b₂) (by omega), ofNat_eq_of_toNat (b := b₃) (by omega)]
    rfl

/-- Each piece without a flaw is what its character is written with. -/
theorem bytes_of_mem_split {bs : List UInt8} {p : Piece} (hp : p ∈ split bs) {c : Char}
    (hc : p.value = .ok c) : encodeChar c = p.bytes := by
  fun_induction split bs with
  | case1 => simp at hp
  | case2 b bs taken value hread ih =>
      rcases List.mem_cons.1 hp with rfl | htail
      · obtain rfl : value = .ok c := hc
        exact encodeChar_of_readChar hread
      · exact ih htail

/-- Joining pieces comes to a text if each of them comes to a character. -/
theorem join_eq_ok_iff {offset : Nat} {ps : List Piece} {cs : List Char} :
    join offset ps = .ok cs ↔ ps.map Piece.value = cs.map .ok := by
  induction ps generalizing offset cs with
  | nil => cases cs <;> simp [join]
  | cons p ps ih =>
      rw [join]
      cases hvalue : p.value with
      | error flaw => cases cs <;> simp [hvalue]
      | ok c =>
          simp only [map_eq_ok_iff, ih, List.map_cons, hvalue]
          cases cs with
          | nil => simp
          | cons d cs =>
              simp only [List.cons.injEq, List.map_cons, Except.ok.injEq]
              constructor
              · rintro ⟨_, htail, rfl, rfl⟩
                exact ⟨rfl, htail⟩
              · rintro ⟨rfl, htail⟩
                exact ⟨cs, htail, rfl, rfl⟩

/-- Bytes are read as a text exactly if they are what the text is written with. -/
theorem decode_eq_ok_iff {bs : List UInt8} {cs : List Char} :
    decode bs = .ok cs ↔ encode cs = bs := by
  rw [decode, join_eq_ok_iff]
  constructor
  · intro h
    have hbytes : ∀ (ps : List Piece) (cs : List Char), (∀ p ∈ ps, ∀ c, p.value = .ok c →
        encodeChar c = p.bytes) → ps.map Piece.value = cs.map .ok →
          encode cs = ps.flatMap Piece.bytes := by
      intro ps
      induction ps with
      | nil =>
          intro cs _ h
          obtain rfl := List.map_eq_nil_iff.1 h.symm
          rfl
      | cons p ps ih =>
          intro cs hps h
          obtain ⟨c, cs, rfl, hc, hcs⟩ := List.map_eq_cons_iff.1 h.symm
          rw [encode, List.flatMap_cons, List.flatMap_cons, hps p List.mem_cons_self c hc.symm]
          exact congrArg _ (ih cs (fun p hp => hps p (List.mem_cons_of_mem _ hp)) hcs.symm)
    rw [hbytes (split bs) cs (fun p hp c hc => bytes_of_mem_split hp hc) h, flatMap_bytes_split]
  · rintro rfl
    rw [split_encode, List.map_map]
    rfl

end Npl.Text.Utf8
