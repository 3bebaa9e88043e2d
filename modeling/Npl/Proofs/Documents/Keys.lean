import Npl.Proofs.Documents
import Npl.Proofs.Path.Uri

/-!
# Keys of documents

A document is kept under the canonical URI of its path. An update goes from the text to the path and
from there to the key, and it takes any text that means a path. Looking up and removing go by the
canonical spelling of the text, which is the same key as long as the text is a file URI. A plain
path is a text that means a path and is its own canonical spelling. So a document can be brought in
by a plain path, but only file URIs find it.

## Main definitions

* `Documents.Answers` — everything that is asked under a text is answered from one source.
* `Documents.Misses` — a text leads past a source that is there.

## Main results

* `Documents.answers_put`, `Documents.misses_put` — the two cases.
* `Documents.update_again` — a second update that means the same path.
* `Documents.keys_of_update` — after an update, the text leads to the document exactly if it is a
  file URI.
-/

namespace Npl.Documents

/-! ### What a text leads to -/

/-- Under the text the source is known, and is found, and can be removed. -/
structure Answers (wd : Path) (d : Documents) (uri : String) (s : Source) : Prop where
  contains : d.contains wd uri = .ok true
  found : d.get? wd uri = .ok (some s)
  removed : ∃ d', d.remove wd uri = .ok (d', some s) ∧ d'.contains wd uri = .ok false

/-- The source is there, and under the text it is not found and cannot be removed: what is known
under the text is what was known before. -/
structure Misses (wd : Path) (d before : Documents) (uri : String) (s : Source) : Prop where
  there : d.sources.get? s.uri = some s
  contains : d.contains wd uri = before.contains wd uri
  found : d.get? wd uri = before.get? wd uri
  missed : d.get? wd uri ≠ .ok (some s)
  removed : ∃ d' s?, d.remove wd uri = .ok (d', s?) ∧ s? ≠ some s ∧ d'.sources.get? s.uri = some s

section

variable {wd path : Path} {d d' : Documents} {uri key content : String} {s : Source}

theorem contains_of_canonicalUri (h : canonicalUri wd uri = .ok key) :
    d.contains wd uri = .ok (d.sources.contains key) := by
  rw [contains, h]
  rfl

theorem get?_of_canonicalUri (h : canonicalUri wd uri = .ok key) :
    d.get? wd uri = .ok (d.sources.get? key) := by
  rw [get?, h]
  rfl

theorem remove_of_canonicalUri (h : canonicalUri wd uri = .ok key) :
    d.remove wd uri = .ok (d.removeKey key) := by
  rw [remove, h]
  rfl

/-- A source that was put under the key of a text is what the text leads to. -/
theorem answers_put (h : canonicalUri wd uri = .ok key) (hs : s.uri = key) :
    (d.put key s).Answers wd uri s := by
  have hfound : (d.put key s).sources.get? key = some s := by
    subst hs
    rw [put, touch, Keyed.get?_set, if_pos rfl]
  refine ⟨?_, ?_, (d.put key s).removeKey key |>.1, ?_, ?_⟩
  · rw [contains_of_canonicalUri h, Keyed.contains, hfound]
    rfl
  · rw [get?_of_canonicalUri h, hfound]
  · rw [remove_of_canonicalUri h, removeKey, hfound]
  · rw [contains_of_canonicalUri h, Keyed.contains, removeKey, touch, Keyed.get?_erase, if_pos rfl]
    rfl

/-- A source that was put under another key than that of a text is not what the text leads to. -/
theorem misses_put (hd : d.Kept) (h : canonicalUri wd uri = .ok uri) (hs : s.uri = key)
    (hne : uri ≠ key) : (d.put key s).Misses wd d uri s := by
  have hfound : (d.put key s).sources.get? key = some s := by
    subst hs
    rw [put, touch, Keyed.get?_set, if_pos rfl]
  have hother : (d.put key s).sources.get? uri = d.sources.get? uri := by
    rw [put, touch, Keyed.get?_set, if_neg (Ne.symm hne)]
  -- Whatever is known under the text has the text as its URI, and the source has not.
  have hmissed : d.sources.get? uri ≠ some s := by
    intro hknown
    have huri : s.uri = uri := hd.named _ (Keyed.mem_of_get? hknown)
    exact hne (huri.symm.trans hs)
  refine ⟨hs ▸ hfound, ?_, ?_, ?_, _, _, remove_of_canonicalUri h, ?_, ?_⟩
  · rw [contains_of_canonicalUri h, contains_of_canonicalUri h, Keyed.contains, hother]
    rfl
  · rw [get?_of_canonicalUri h, get?_of_canonicalUri h, hother]
  · rw [get?_of_canonicalUri h, hother]
    exact fun heq => hmissed (Except.ok.inj heq)
  · rw [hother]
    exact hmissed
  · rw [hs, touch, Keyed.get?_erase, if_neg hne, hfound]

/-! ### Plain paths -/

/-- A canonical URI is a file URI. -/
theorem isFile_toUri (hwd : wd.isAbsolute = true) (path : Path) :
    Uri.isFile (path.toUri wd) = true :=
  decide_eq_true (Uri.scheme_of_parse (Path.parse_toUri hwd path)).symm

/-- A text that means a path and is no file URI is its own canonical spelling. -/
theorem canonicalUri_of_plain (hfile : Uri.isFile uri = false) (hpath : Path.ofUri uri = .ok path) :
    canonicalUri wd uri = .ok uri := by
  unfold Path.ofUri at hpath
  obtain ⟨parsed, hparsed, -⟩ := bind_eq_ok_iff.1 hpath
  have hscheme : parsed.scheme ≠ "file" := by
    rw [Uri.scheme_of_parse hparsed]
    exact of_decide_eq_false hfile
  unfold canonicalUri
  rw [hparsed]
  exact if_neg hscheme

/-! ### Updates -/

/-- An update that is not refused. -/
theorem of_update (h : d.update wd uri content = (d', true)) :
    ∃ path, Path.ofUri uri = .ok path ∧ path.isSource = true ∧
      d' = d.put (path.toUri wd) ⟨path.toUri wd, path, content, false⟩ := by
  rcases d.update_cases wd uri content with heq | ⟨path, hpath, hsource, heq⟩
  · rw [heq] at h
    cases congrArg Prod.snd h
  · rw [heq] at h
    exact ⟨path, hpath, hsource, (congrArg Prod.fst h).symm⟩

/-- Put below another path, a path with components keeps its name. -/
theorem name_join (wd : Path) (h : path.parts ≠ []) : (wd.join path).name = path.name := by
  unfold Path.join
  split
  · rfl
  · rw [Path.name, Path.name, List.getLast?_append, List.getLast?_eq_some_getLast h, Option.some_or]

/-- A path that as seen from the working directory is the same as that of a source has the suffix of
source files as well, unless it has no components: then it is the working directory itself. -/
theorem isSource_of_join_eq {path' : Path} (hsource : path.isSource = true)
    (hjoin : wd.join path' = wd.join path) :
    path'.isSource = true ∨ path' = ⟨.relative, []⟩ := by
  have hparts : path.parts ≠ [] := by
    intro hnil
    rw [Path.isSource, Path.suffix, Path.name, hnil] at hsource
    exact absurd hsource (by decide)
  by_cases hparts' : path'.parts = []
  · cases habsolute : path'.isAbsolute with
    | true =>
        rw [Path.join_of_isAbsolute wd habsolute] at hjoin
        rw [hjoin] at hparts'
        unfold Path.join at hparts'
        split at hparts'
        · exact absurd hparts' hparts
        · exact absurd (List.append_eq_nil_iff.1 hparts').2 hparts
    | false =>
        have hroot : path'.root = .relative := by simpa [Path.isAbsolute] using habsolute
        exact .inr (by rw [← hroot, ← hparts'])
  · have hname := congrArg Path.name hjoin
    rw [name_join wd hparts', name_join wd hparts] at hname
    rw [Path.isSource, Path.suffix, ← hname] at hsource
    exact .inl hsource

/-- A second update that means the same path replaces what is there, unless it means the working
directory by no name. -/
theorem update_again {uri' : String} {path' : Path} (content' : String)
    (hsource : path.isSource = true) (hthere : d.sources.contains (path.toUri wd) = true)
    (hpath' : Path.ofUri uri' = .ok path') (hjoin : wd.join path' = wd.join path) :
    path' = ⟨.relative, []⟩ ∧ d.update wd uri' content' = (d, false) ∨
    ∃ d', d.update wd uri' content' = (d', true) ∧ d'.sources.keys = d.sources.keys ∧
      ∀ key, d'.sources.get? key =
        if path.toUri wd = key then some ⟨key, path', content', false⟩ else d.sources.get? key := by
  have hkey : path'.toUri wd = path.toUri wd := by rw [Path.toUri, Path.toUri, hjoin]
  rcases isSource_of_join_eq hsource hjoin with hsource' | rfl
  · refine .inr ⟨_, update_of_isSource hpath' hsource', ?_, fun key => ?_⟩
    · rw [hkey, put, touch, Keyed.keys_set, if_pos (Keyed.contains_iff.1 hthere)]
    · rw [hkey, put, touch, Keyed.get?_set]
      split
      · next heq => rw [heq]
      · rfl
  · refine .inl ⟨rfl, ?_⟩
    rw [update, hpath']
    exact if_neg (by decide)

/-- **After an update, the text leads to the document exactly if it is a file URI.** Then the
document is known under the text, is found with the new content, and can be removed. Any other text
that an update takes is a plain path, and leads past the document: what is known, found and removed
under it is what there was before. Another update that means the same path replaces the document and
adds none, unless it means the working directory by no name. -/
theorem keys_of_update (hwd : wd.isAbsolute = true) (hd : Reachable wd d)
    (hupdate : d.update wd uri content = (d', true)) :
    ∃ path, Path.ofUri uri = .ok path ∧
      (Uri.isFile uri = true → d'.Answers wd uri ⟨path.toUri wd, path, content, false⟩) ∧
      (Uri.isFile uri = false → d'.Misses wd d uri ⟨path.toUri wd, path, content, false⟩) ∧
      ∀ uri' content' path', Path.ofUri uri' = .ok path' → wd.join path' = wd.join path →
        path' = ⟨.relative, []⟩ ∧ d'.update wd uri' content' = (d', false) ∨
        ∃ d'', d'.update wd uri' content' = (d'', true) ∧ d''.sources.keys = d'.sources.keys ∧
          ∀ key, d''.sources.get? key = if path.toUri wd = key
            then some ⟨key, path', content', false⟩ else d'.sources.get? key := by
  obtain ⟨path, hpath, hsource, rfl⟩ := of_update hupdate
  refine ⟨path, hpath, fun hfile => ?_, fun hfile => ?_, ?_⟩
  · exact answers_put ((canonicalUri_of_isFile hfile).2 ⟨path, hpath, rfl⟩) rfl
  · refine misses_put hd.kept (canonicalUri_of_plain hfile hpath) rfl fun heq => ?_
    rw [heq, isFile_toUri hwd] at hfile
    cases hfile
  · intro uri' content' path' hpath' hjoin
    refine update_again content' hsource ?_ hpath' hjoin
    rw [put, touch, Keyed.contains, Keyed.get?_set, if_pos rfl]
    rfl

end

/-- A document that comes in by its plain path is not found and not removed under that path. Another
spelling of a URI for the same path gives it another text. -/
theorem keys_of_update_plain :
    let wd : Path := ⟨.single, ["ws"]⟩
    let s : Source := ⟨"file:///ws/a.npl", ⟨.single, ["ws", "a.npl"]⟩, "package a", false⟩
    let d : Documents := ⟨⟨[("file:///ws/a.npl", s)]⟩, ⟨[("file:///ws/a.npl", 1)]⟩, 1⟩
    wd.isAbsolute = true ∧ Reachable wd empty ∧
      empty.update wd "/ws/a.npl" "package a" = (d, true) ∧
      Uri.isFile "/ws/a.npl" = false ∧ d.Misses wd empty "/ws/a.npl" s ∧
      ∃ d', d.update wd "FILE:a.npl" "package b" = (d', true) ∧
        d'.sources.keys = ["file:///ws/a.npl"] := by
  intro wd s d
  have hwd : wd.isAbsolute = true := rfl
  have hupdate : empty.update wd "/ws/a.npl" "package a" = (d, true) := by decide +kernel
  have hfile : Uri.isFile "/ws/a.npl" = false := by decide +kernel
  obtain ⟨path, hpath, -, hmisses, hagain⟩ := keys_of_update hwd .empty hupdate
  obtain rfl : path = ⟨.single, ["ws", "a.npl"]⟩ := by
    have hread : Path.ofUri "/ws/a.npl" = .ok ⟨.single, ["ws", "a.npl"]⟩ :=
      toOption_eq_some_iff.1 (by decide +kernel)
    exact Except.ok.inj (hpath.symm.trans hread)
  have hkey : (⟨.single, ["ws", "a.npl"]⟩ : Path).toUri wd = "file:///ws/a.npl" := by
    decide +kernel
  have hspelled : Path.ofUri "FILE:a.npl" = .ok ⟨.relative, ["a.npl"]⟩ :=
    toOption_eq_some_iff.1 (by decide +kernel)
  rw [hkey] at hmisses
  refine ⟨hwd, .empty, hupdate, hfile, hmisses hfile, ?_⟩
  have hsecond := hagain "FILE:a.npl" "package b" _ hspelled rfl
  rcases hsecond with ⟨hnameless, -⟩ | ⟨d', hsecond, hkeys, -⟩
  · cases hnameless
  · exact ⟨d', hsecond, hkeys⟩

end Npl.Documents
