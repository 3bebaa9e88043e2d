import Npl.Path.Uri
import Npl.Proofs.Except
import Npl.Proofs.Path.Normal
import Npl.Proofs.Text.Percent

/-!
# Canonical URIs

The canonical URI of a path means that path, as seen from the working directory. So it is its own
canonical spelling, and one document has one key: of the many spellings of a file URI those have the
same canonical spelling that mean the same path.

## Main definitions

* `Uri.isFile` — the texts that have canonical spellings other than themselves.

## Main results

* `Path.ofUri_toUri` — a canonical URI means the path it was made for.
* `canonicalUri_toUri` — a canonical URI is its own canonical spelling.
* `canonicalUri_exact` — canonical spellings tell paths apart exactly.
-/

namespace Npl

namespace Uri

open Text.Percent (isWritten)

/-- What escaping writes behind a slash is the path of a URI with the scheme of files. -/
theorem parse_file {cs : List Char} (h : ∀ c ∈ '/' :: cs, isWritten c = true) :
    parse ("file://" ++ String.ofList ('/' :: cs)) = .ok ⟨"file", "", '/' :: cs⟩ := by
  have hne : ∀ c ∈ '/' :: cs, 0x20 < c.toNat ∧ c ≠ '?' ∧ c ≠ '#' := by
    intro c hc
    have hwritten := h c hc
    simp only [isWritten, Bool.and_eq_true, decide_eq_true_eq] at hwritten
    exact ⟨hwritten.1.1.1, hwritten.1.2, hwritten.2⟩
  have hlist : ("file://" ++ String.ofList ('/' :: cs)).toList =
      ['f', 'i', 'l', 'e', ':', '/', '/'] ++ '/' :: cs := by
    rw [String.toList_append, @String.toList_ofList ('/' :: cs)]
    rfl
  have hkept : ('/' :: cs).filter (fun c => c ≠ '\t' ∧ c ≠ '\r' ∧ c ≠ '\n') = '/' :: cs := by
    rw [List.filter_eq_self]
    intro c hc
    refine decide_eq_true ⟨?_, ?_, ?_⟩ <;> rintro rfl <;> exact absurd (hne _ hc).1 (by decide)
  have hclean : clean (['f', 'i', 'l', 'e', ':', '/', '/'] ++ '/' :: cs) =
      ['f', 'i', 'l', 'e', ':', '/', '/'] ++ '/' :: cs := by
    have hdrop : (['f', 'i', 'l', 'e', ':', '/', '/'] ++ '/' :: cs).dropWhile (·.toNat ≤ 0x20) =
        ['f', 'i', 'l', 'e', ':', '/', '/'] ++ '/' :: cs := rfl
    rw [clean, hdrop, List.filter_append, hkept]
    rfl
  have hpath : ('/' :: cs).takeWhile (fun c => c ≠ '#' ∧ c ≠ '?') = '/' :: cs := by
    have hall : ∀ c ∈ '/' :: cs, (decide (c ≠ '#' ∧ c ≠ '?')) = true :=
      fun c hc => decide_eq_true ⟨(hne c hc).2.2, (hne c hc).2.1⟩
    simpa using @List.takeWhile_append_of_pos _ (fun c => c ≠ '#' ∧ c ≠ '?') ('/' :: cs) [] hall
  unfold parse
  rw [hlist, hclean]
  have hscheme : splitScheme (['f', 'i', 'l', 'e', ':', '/', '/'] ++ '/' :: cs) =
      ("file", '/' :: '/' :: '/' :: cs) := rfl
  have hauthority : splitAuthority ('/' :: '/' :: '/' :: cs) = ([], '/' :: cs) := rfl
  rw [hscheme]
  simp only [hauthority]
  rw [hpath]
  rfl

end Uri

namespace Path

/-! ### The URI of a path -/

/-- The text of an absolute path, escaped, starts with a slash. -/
theorem encode_text {p : Path} (h : p.isAbsolute = true) :
    ∃ cs, Text.Percent.encode p.text.toList = '/' :: cs := by
  obtain ⟨cs, hcs⟩ := toList_text_of_isAbsolute h
  exact ⟨Text.Percent.encode cs, by rw [hcs]; rfl⟩

variable {wd p : Path}

/-- The parts of a canonical URI. -/
theorem parse_toUri (hwd : wd.isAbsolute = true) (p : Path) :
    Uri.parse (p.toUri wd) =
      .ok ⟨"file", "", Text.Percent.encode (wd.join p).text.toList⟩ := by
  obtain ⟨cs, hcs⟩ := encode_text (isAbsolute_join hwd p)
  rw [toUri, hcs]
  refine Uri.parse_file fun c hc => ?_
  rw [← hcs] at hc
  exact Text.Percent.isWritten_of_mem_encode hc

/-- A canonical URI means the path it was made for. -/
theorem ofUri_toUri (hwd : wd.isAbsolute = true) (hn : wd.Normal) (hp : p.Normal) :
    ofUri (p.toUri wd) = .ok (wd.join p) := by
  unfold ofUri
  rw [parse_toUri hwd p]
  simp only [Bind.bind, Except.bind]
  rw [Text.Percent.decode_encode]
  simp [ofText_text (hn.join hp), Pure.pure, Except.pure]

/-- A canonical URI has no exclamation mark. -/
theorem exclamation_not_mem_toUri (wd p : Path) : '!' ∉ (p.toUri wd).toList := by
  rw [toUri, String.toList_append, @String.toList_ofList (Text.Percent.encode _), List.mem_append]
  rintro (hscheme | hpath)
  · exact absurd hscheme (by decide)
  · exact absurd (Text.Percent.isPlain_of_mem_encode hpath (by decide)) (by decide)

/-- A path that a URI means is as reading gives it. -/
theorem normal_of_ofUri {uri : String} {path : Path} (h : ofUri uri = .ok path) : path.Normal := by
  unfold ofUri at h
  obtain ⟨parsed, -, h⟩ := bind_eq_ok_iff.1 h
  split at h
  · obtain rfl := pure_eq_ok_iff.1 h
    exact normal_ofText _
  · simp only at h
    split at h
    · obtain ⟨u, hthrow, -⟩ := bind_eq_ok_iff.1 h
      simp [throw, throwThe, MonadExceptOf.throw] at hthrow
    · split at h
      · obtain rfl := pure_eq_ok_iff.1 h
        exact normal_ofText _
      · obtain rfl := pure_eq_ok_iff.1 h
        exact normal_ofText _

/-- Paths have the same canonical URI exactly if they are the same as seen from the working
directory. -/
theorem toUri_eq_iff (hwd : wd.isAbsolute = true) (hn : wd.Normal) {q : Path} (hp : p.Normal)
    (hq : q.Normal) : p.toUri wd = q.toUri wd ↔ wd.join p = wd.join q := by
  constructor
  · intro h
    have hmeaning : ofUri (p.toUri wd) = ofUri (q.toUri wd) := by rw [h]
    rw [ofUri_toUri hwd hn hp, ofUri_toUri hwd hn hq] at hmeaning
    exact Except.ok.inj hmeaning
  · intro h
    rw [toUri, toUri, h]

end Path

/-- A canonical URI is its own canonical spelling. -/
theorem canonicalUri_toUri {wd p : Path} (hwd : wd.isAbsolute = true) (hn : wd.Normal)
    (hp : p.Normal) : canonicalUri wd (p.toUri wd) = .ok (p.toUri wd) := by
  have habsolute := Path.isAbsolute_join hwd p
  unfold canonicalUri
  rw [Path.parse_toUri hwd p, Path.ofUri_toUri hwd hn hp]
  simp only [Bind.bind, Except.bind, Pure.pure, Except.pure, if_true]
  rw [Path.toUri, Path.join_of_isAbsolute wd habsolute, Path.toUri]

/-! ### Spellings -/

/-- Whether a text has the scheme of files, in letters of either case. -/
def Uri.isFile (uri : String) : Bool :=
  (splitScheme (clean uri.toList)).1 = "file"

theorem Uri.scheme_of_parse {uri : String} {parsed : Uri} (h : parse uri = .ok parsed) :
    parsed.scheme = (splitScheme (clean uri.toList)).1 := by
  unfold parse at h
  simp only at h
  obtain ⟨_, -, h⟩ := bind_eq_ok_iff.1 h
  obtain ⟨_, -, h⟩ := bind_eq_ok_iff.1 h
  obtain rfl := pure_eq_ok_iff.1 h
  rfl

section

variable {wd : Path} {uri key : String}

/-- The canonical spelling of a file URI is the canonical URI of the path that it means. -/
theorem canonicalUri_of_isFile (h : Uri.isFile uri = true) :
    canonicalUri wd uri = .ok key ↔ ∃ p, Path.ofUri uri = .ok p ∧ p.toUri wd = key := by
  have hscheme : ∀ parsed, Uri.parse uri = .ok parsed → parsed.scheme = "file" := fun parsed hparsed =>
    (Uri.scheme_of_parse hparsed).trans (of_decide_eq_true h)
  unfold canonicalUri
  rw [bind_eq_ok_iff]
  constructor
  · rintro ⟨parsed, hparsed, hkey⟩
    rw [if_pos (hscheme parsed hparsed)] at hkey
    obtain ⟨p, hp, hkey⟩ := bind_eq_ok_iff.1 hkey
    exact ⟨p, hp, pure_eq_ok_iff.1 hkey⟩
  · rintro ⟨p, hp, rfl⟩
    have hread := hp
    unfold Path.ofUri at hread
    obtain ⟨parsed, hparsed, -⟩ := bind_eq_ok_iff.1 hread
    refine ⟨parsed, hparsed, ?_⟩
    rw [if_pos (hscheme parsed hparsed), hp]
    rfl

/-- Any other text is its own canonical spelling. -/
theorem eq_of_canonicalUri (h : Uri.isFile uri = false) (hkey : canonicalUri wd uri = .ok key) :
    uri = key := by
  unfold canonicalUri at hkey
  obtain ⟨parsed, hparsed, hkey⟩ := bind_eq_ok_iff.1 hkey
  have hscheme : parsed.scheme ≠ "file" := by
    rw [Uri.scheme_of_parse hparsed]
    exact of_decide_eq_false h
  rw [if_neg hscheme] at hkey
  exact pure_eq_ok_iff.1 hkey

/-- A canonical spelling is its own. -/
theorem canonicalUri_of_canonicalUri (hwd : wd.isAbsolute = true) (hn : wd.Normal)
    (h : canonicalUri wd uri = .ok key) : canonicalUri wd key = .ok key := by
  cases hfile : Uri.isFile uri with
  | true =>
      obtain ⟨p, hp, rfl⟩ := (canonicalUri_of_isFile hfile).1 h
      exact canonicalUri_toUri hwd hn (Path.normal_of_ofUri hp)
  | false =>
      obtain rfl := eq_of_canonicalUri hfile h
      exact h

/-- **Canonical URIs are exact keys.** From an absolute working directory, the canonical URI of an
absolute path means that path, a canonical spelling is its own, and two file URIs have one canonical
spelling exactly if the paths that they mean are one as seen from the working directory. -/
theorem canonicalUri_exact (hwd : wd.isAbsolute = true) (hn : wd.Normal) :
    (∀ p : Path, p.isAbsolute = true → p.Normal → Path.ofUri (p.toUri wd) = .ok p) ∧
    (∀ uri key, canonicalUri wd uri = .ok key → canonicalUri wd key = .ok key) ∧
    ∀ uri uri', Uri.isFile uri = true → Uri.isFile uri' = true →
      ((∃ key, canonicalUri wd uri = .ok key ∧ canonicalUri wd uri' = .ok key) ↔
        ∃ p p', Path.ofUri uri = .ok p ∧ Path.ofUri uri' = .ok p' ∧ wd.join p = wd.join p') := by
  refine ⟨fun p habsolute hp => ?_, fun _ _ => canonicalUri_of_canonicalUri hwd hn, ?_⟩
  · rw [Path.ofUri_toUri hwd hn hp, Path.join_of_isAbsolute wd habsolute]
  · intro uri uri' hfile hfile'
    constructor
    · rintro ⟨key, hkey, hkey'⟩
      obtain ⟨p, hp, rfl⟩ := (canonicalUri_of_isFile hfile).1 hkey
      obtain ⟨p', hp', heq⟩ := (canonicalUri_of_isFile hfile').1 hkey'
      exact ⟨p, p', hp, hp', (Path.toUri_eq_iff hwd hn (Path.normal_of_ofUri hp)
        (Path.normal_of_ofUri hp')).1 heq.symm⟩
    · rintro ⟨p, p', hp, hp', hjoin⟩
      have heq : p.toUri wd = p'.toUri wd := (Path.toUri_eq_iff hwd hn (Path.normal_of_ofUri hp)
        (Path.normal_of_ofUri hp')).2 hjoin
      exact ⟨p.toUri wd, (canonicalUri_of_isFile hfile).2 ⟨p, hp, rfl⟩,
        (canonicalUri_of_isFile hfile').2 ⟨p', hp', heq.symm⟩⟩

end

/-- A path with components that mean something in a URI, below two slashes. -/
def Path.awkward : Path :=
  ⟨.double, ["100%", "?#;[", "\t\n\x00", "é", ".."]⟩

/-- Seen from `/ws`, an awkward path comes back from its URI, and an absolute spelling with escapes
and dots has the key of a relative one without. -/
theorem canonicalUri_exact_awkward :
    let wd : Path := ⟨.single, ["ws"]⟩
    (wd.isAbsolute = true ∧ wd.Normal) ∧
    (Path.awkward.isAbsolute = true ∧ Path.awkward.Normal ∧
      Path.ofUri (Path.awkward.toUri wd) = .ok Path.awkward) ∧
    (canonicalUri wd "file:///ws/a%20b.npl" = .ok "file:///ws/a%20b.npl") ∧
    Uri.isFile "FILE://localhost/ws/./a%20b.npl" = true ∧ Uri.isFile "file:a b.npl" = true ∧
    ∃ key, canonicalUri wd "FILE://localhost/ws/./a%20b.npl" = .ok key ∧
      canonicalUri wd "file:a b.npl" = .ok key := by
  have hwd : (⟨.single, ["ws"]⟩ : Path).isAbsolute = true := rfl
  have hn : (⟨.single, ["ws"]⟩ : Path).Normal := by decide
  have habsolute : Path.awkward.isAbsolute = true := rfl
  have hawkward : Path.awkward.Normal := by decide
  have hfile : Uri.isFile "FILE://localhost/ws/./a%20b.npl" = true := by decide +kernel
  have hfile' : Uri.isFile "file:a b.npl" = true := by decide +kernel
  have hkey : canonicalUri ⟨.single, ["ws"]⟩ "file:a b.npl" = .ok "file:///ws/a%20b.npl" :=
    toOption_eq_some_iff.1 (by decide +kernel)
  have hexact := canonicalUri_exact hwd hn
  refine ⟨⟨hwd, hn⟩, ⟨habsolute, hawkward, hexact.1 _ habsolute hawkward⟩, hexact.2.1 _ _ hkey,
    hfile, hfile', (hexact.2.2 _ _ hfile hfile').2 ?_⟩
  exact ⟨⟨.single, ["ws", "a b.npl"]⟩, ⟨.relative, ["a b.npl"]⟩,
    toOption_eq_some_iff.1 (by decide +kernel), toOption_eq_some_iff.1 (by decide +kernel), rfl⟩

end Npl
