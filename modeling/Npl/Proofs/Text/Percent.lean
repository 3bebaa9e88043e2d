import Npl.Proofs.Text.Utf8
import Npl.Text.Percent

/-!
# Reading escapes back

What was escaped is read back as it was, whatever the text. All that escaping writes is ASCII, and
none of it means anything in a URI but a percent sign and a slash.

## Main definitions

* `Percent.isWritten` — the characters that escaping writes.

## Main results

* `Percent.isWritten_of_mem_encode` — escaping writes no others.
* `Percent.isPlain_of_mem_encode` — a percent sign is the only one that escaping would escape.
* `Percent.decode_encode` — escaped text is read back.
-/

namespace Npl.Text.Percent

/-! ### What is written -/

/-- Whether escaping may write a character. -/
def isWritten (c : Char) : Bool :=
  0x20 < c.toNat && c.toNat < 0x80 && c ≠ '?' && c ≠ '#'

/-- What a plain byte stands for is written, and is no percent sign. -/
theorem isWritten_of_isPlain {b : UInt8} (h : isPlain b = true) :
    isWritten (Char.ofNat b.toNat) = true ∧ Char.ofNat b.toNat ≠ '%' ∧
      (Char.ofNat b.toNat).toNat = b.toNat := by
  have hall : ∀ n : Fin 256, isPlain (.ofNat n) = true →
      isWritten (Char.ofNat n) = true ∧ Char.ofNat n ≠ '%' ∧ (Char.ofNat n).toNat = n := by
    decide +kernel
  have hb := hall ⟨b.toNat, b.toNat_lt⟩
  simp only [UInt8.ofNat_toNat] at hb
  exact hb h

theorem isWritten_hexDigit {n : Nat} (h : n < 16) : isWritten (hexDigit n) = true :=
  (by decide : ∀ n : Fin 16, isWritten (hexDigit n) = true) ⟨n, h⟩

theorem hexValue?_hexDigit {n : Nat} (h : n < 16) : hexValue? (hexDigit n) = some n :=
  (by decide : ∀ n : Fin 16, hexValue? (hexDigit n) = some n.1) ⟨n, h⟩

theorem div_lt_sixteen (b : UInt8) : b.toNat / 16 < 16 := by
  have := b.toNat_lt
  omega

theorem isWritten_of_mem_encodeByte {b : UInt8} {c : Char} (h : c ∈ encodeByte b) :
    isWritten c = true := by
  unfold encodeByte at h
  split at h
  · next hplain =>
      obtain rfl := List.mem_singleton.1 h
      exact (isWritten_of_isPlain hplain).1
  · simp only [List.mem_cons, List.not_mem_nil, or_false] at h
    rcases h with rfl | rfl | rfl
    · decide
    · exact isWritten_hexDigit (div_lt_sixteen b)
    · exact isWritten_hexDigit (Nat.mod_lt _ (by decide))

/-- Escaping writes no characters but those. -/
theorem isWritten_of_mem_encode {cs : List Char} {c : Char} (h : c ∈ encode cs) :
    isWritten c = true := by
  obtain ⟨b, -, hb⟩ := List.mem_flatMap.1 h
  exact isWritten_of_mem_encodeByte hb

/-- What escaping writes stands for itself, but for percent signs. -/
theorem isPlain_of_mem_encode {cs : List Char} {c : Char} (h : c ∈ encode cs) (hc : c ≠ '%') :
    isPlain (.ofNat c.toNat) = true := by
  have hdigit : ∀ n : Fin 16, isPlain (.ofNat (hexDigit n).toNat) = true := by decide
  obtain ⟨b, -, hb⟩ := List.mem_flatMap.1 h
  unfold encodeByte at hb
  split at hb
  · next hplain =>
      obtain rfl := List.mem_singleton.1 hb
      rwa [(isWritten_of_isPlain hplain).2.2, UInt8.ofNat_toNat]
  · simp only [List.mem_cons, List.not_mem_nil, or_false] at hb
    rcases hb with rfl | rfl | rfl
    · exact absurd rfl hc
    · exact hdigit ⟨_, div_lt_sixteen b⟩
    · exact hdigit ⟨_, Nat.mod_lt _ (by decide)⟩

/-! ### Reading it back -/

/-- A character that is no percent sign stands for one byte. -/
theorem unescape_cons_of_ne {c : Char} (h : c ≠ '%') (cs : List Char) :
    unescape (c :: cs) = .ofNat c.toNat :: unescape cs := by
  rw [unescape.eq_2]
  intro a b cs' hc
  exact absurd hc h

/-- The characters written for a byte stand for it. -/
theorem unescape_encodeByte (b : UInt8) (cs : List Char) :
    unescape (encodeByte b ++ cs) = b :: unescape cs := by
  unfold encodeByte
  split
  · next hplain =>
      obtain ⟨-, hne, hnat⟩ := isWritten_of_isPlain hplain
      rw [List.singleton_append, unescape_cons_of_ne hne, hnat, UInt8.ofNat_toNat]
  · simp only [List.cons_append, List.nil_append, unescape, hexValue?_hexDigit (div_lt_sixteen b),
      hexValue?_hexDigit (Nat.mod_lt b.toNat (show 0 < 16 by decide))]
    rw [Nat.div_add_mod, UInt8.ofNat_toNat]

theorem unescape_flatMap_encodeByte (bs : List UInt8) :
    unescape (bs.flatMap encodeByte) = bs := by
  induction bs with
  | nil => rfl
  | cons b bs ih => rw [List.flatMap_cons, unescape_encodeByte, ih]

/-- Escaped text is read back. -/
theorem decode_encode (cs : List Char) : decode (encode cs) = cs := by
  have hascii : ∀ c ∈ encode cs, isAscii c = true := by
    intro c hc
    have hwritten := isWritten_of_mem_encode hc
    simp only [isWritten, Bool.and_eq_true] at hwritten
    exact hwritten.1.1.2
  have hread : Utf8.decodeLossy (unescape (encode cs)) = cs := by
    rw [encode, unescape_flatMap_encodeByte, Utf8.decodeLossy_encode]
  cases hcs : encode cs with
  | nil =>
      rw [hcs] at hread
      simpa [decode, unescape, Utf8.decodeLossy, Utf8.split] using hread
  | cons c rest =>
      rw [hcs] at hascii hread
      have htail : ∀ c ∈ rest, isAscii c = true := fun d hd => hascii d (List.mem_cons_of_mem _ hd)
      have htake : rest.takeWhile isAscii = rest := by
        simpa using @List.takeWhile_append_of_pos _ isAscii rest [] htail
      have hdrop : rest.dropWhile isAscii = [] := by
        simpa using @List.dropWhile_append_of_pos _ isAscii rest [] htail
      rw [decode, if_pos (hascii c List.mem_cons_self), htake, hread, hdrop, decode,
        List.append_nil]

end Npl.Text.Percent
