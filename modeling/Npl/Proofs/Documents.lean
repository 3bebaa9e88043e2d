import Npl.Documents
import Npl.Proofs.Keyed

/-!
# Documents that changes lead to

Every change stamps the document it is about with a number greater than all stamps before. Striking
off takes stamps away and gives no new ones. So a stamp tells when a document was changed last, and
striking off what was noted before spares every document that was changed after the note.

## Main definitions

* `Documents.Reachable` — the documents that changes and striking off lead to.
* `Documents.Kept` — what all of them have in common.

## Main results

* `Documents.Reachable.holds` — what every change keeps holds of all reachable documents.
* `Documents.Reachable.kept` — reachable documents are kept well.
* `Documents.strikeUnchanged_get?_of_lt` — a stamp above all that were noted is not struck off.
-/

namespace Npl.Documents

/-! ### Well-kept documents -/

/-- No stamp is above the number of changes, each source has its key as its URI, and no key is there
twice. -/
structure Kept (d : Documents) : Prop where
  stamped : ∀ e ∈ d.dirty.entries, e.2 ≤ d.changes
  stampedOnce : d.dirty.keys.Nodup
  named : ∀ e ∈ d.sources.entries, e.2.uri = e.1
  distinct : d.sources.keys.Nodup

/-- Documents without sources and stamps are kept well. -/
theorem kept_cleared (changes : Nat) : Kept ⟨.empty, .empty, changes⟩ where
  stamped := by simp [Keyed.empty]
  stampedOnce := by simp [Keyed.empty, Keyed.keys]
  named := by simp [Keyed.empty]
  distinct := by simp [Keyed.empty, Keyed.keys]

/-- Noting a change keeps the stamps in order. -/
theorem stamped_touch {d : Documents} (h : ∀ e ∈ d.dirty.entries, e.2 ≤ d.changes) (key : String) :
    ∀ e ∈ (d.touch key).dirty.entries, e.2 ≤ (d.touch key).changes := by
  intro e he
  rcases Keyed.mem_of_mem_set he with rfl | hold
  · exact Nat.le_refl _
  · exact Nat.le_succ_of_le (h e hold)

theorem Kept.put {d : Documents} (h : d.Kept) (key : String) (s : Source) : (d.put key s).Kept where
  stamped := stamped_touch h.stamped key
  stampedOnce := Keyed.nodup_keys_set h.stampedOnce key _
  named := by
    intro e he
    rcases Keyed.mem_of_mem_set he with rfl | hold
    · rfl
    · exact h.named e hold
  distinct := Keyed.nodup_keys_set h.distinct key _

theorem Kept.removeKey {d : Documents} (h : d.Kept) (key : String) : (d.removeKey key).1.Kept where
  stamped := stamped_touch h.stamped key
  stampedOnce := Keyed.nodup_keys_set h.stampedOnce key _
  named := fun e he => h.named e (Keyed.mem_of_mem_erase he).1
  distinct := Keyed.nodup_keys_erase h.distinct key

/-- No document has a URI that was removed. -/
theorem Kept.uri_ne_of_removeKey {d : Documents} (h : d.Kept) {key : String} {s : Source}
    (hs : s ∈ (d.removeKey key).1.all) : s.uri ≠ key := by
  obtain ⟨entry, hentry, rfl⟩ := List.mem_map.1 hs
  obtain ⟨hold, hne⟩ := Keyed.mem_of_mem_erase hentry
  rw [h.named entry hold]
  exact hne

/-- The documents have distinct URIs. -/
theorem Kept.nodup_uris {d : Documents} (h : d.Kept) : (d.all.map Source.uri).Nodup := by
  have heq : d.all.map Source.uri = d.sources.keys := by
    rw [Documents.all, Keyed.values, Keyed.keys, List.map_map]
    exact List.map_congr_left fun e he => h.named e he
  rw [heq]
  exact h.distinct

/-- Documents of which only some stamps are left are kept as well as before. -/
theorem Kept.of_dirty {d : Documents} (h : d.Kept) {dirty : Keyed Nat}
    (hsub : dirty.entries.Sublist d.dirty.entries) : Kept { d with dirty } where
  stamped := fun e he => h.stamped e (hsub.subset he)
  stampedOnce := h.stampedOnce.sublist (hsub.map Prod.fst)
  named := h.named
  distinct := h.distinct

/-- What holds after every single source is put holds after several are. -/
theorem holds_putAll {P : Documents → Prop} (hput : ∀ d key s, P d → P (d.put key s)) {d : Documents}
    (h : P d) (wd : Path) (ss : List Source) : P (d.putAll wd ss).1 := by
  induction ss generalizing d with
  | nil => exact h
  | cons s ss ih =>
      unfold putAll
      split
      · exact h
      · exact ih (hput d _ s h)

theorem Kept.putAll {d : Documents} (h : d.Kept) (wd : Path) (ss : List Source) :
    (d.putAll wd ss).1.Kept :=
  holds_putAll (fun _ key s h => h.put key s) h wd ss

/-- Where each source has its key as its URI, looking a key up is looking for that URI. -/
theorem lookup_eq_find? (key : String) {es : List (String × Source)}
    (h : ∀ e ∈ es, e.2.uri = e.1) :
    Keyed.lookup key es = (es.map Prod.snd).find? (·.uri = key) := by
  induction es with
  | nil => rfl
  | cons e es ih =>
      have he : e.2.uri = e.1 := h e List.mem_cons_self
      rw [Keyed.lookup, List.map_cons, List.find?_cons, he,
        ih fun e' he' => h e' (List.mem_cons_of_mem _ he')]
      by_cases hkey : e.1 = key
      · simp [hkey]
      · rw [if_neg hkey, decide_eq_false hkey]

theorem Kept.get?_eq_find? {d : Documents} (h : d.Kept) (key : String) :
    d.sources.get? key = d.all.find? (·.uri = key) :=
  lookup_eq_find? key h.named

/-! ### Changes -/

/-- The text of a source file is put under the canonical URI of its location. -/
theorem update_of_isSource {d : Documents} {wd path : Path} {uri content : String}
    (hpath : Path.ofUri uri = .ok path) (hsource : path.isSource = true) :
    d.update wd uri content =
      (d.put (path.toUri wd) ⟨path.toUri wd, path, content, false⟩, true) := by
  rw [update, hpath]
  exact if_pos hsource

/-- What an update does: nothing, or it puts a source under the canonical URI of its location. -/
theorem update_cases (d : Documents) (wd : Path) (uri content : String) :
    d.update wd uri content = (d, false) ∨
      ∃ path, Path.ofUri uri = .ok path ∧ path.isSource = true ∧
        d.update wd uri content =
          (d.put (path.toUri wd) ⟨path.toUri wd, path, content, false⟩, true) := by
  unfold update
  split
  · exact .inl rfl
  · next path hpath =>
      split
      · next hsource => exact .inr ⟨path, hpath, hsource, rfl⟩
      · exact .inl rfl

/-- What a removal does: nothing, or it removes the canonical URI. -/
theorem remove_cases (d : Documents) (wd : Path) (uri : String) :
    (∃ e, d.remove wd uri = .error e) ∨
      ∃ key, canonicalUri wd uri = .ok key ∧ d.remove wd uri = .ok (d.removeKey key) := by
  unfold remove
  cases hkey : canonicalUri wd uri with
  | error e => exact .inl ⟨e, rfl⟩
  | ok key => exact .inr ⟨key, rfl, rfl⟩

/-! ### Striking off -/

/-- Strikes a key off if it has the given stamp. -/
def strikeStamp (dirty : Keyed Nat) (e : String × Nat) : Keyed Nat :=
  if dirty.get? e.1 = some e.2 then dirty.erase e.1 else dirty

theorem erase_sublist (m : Keyed Nat) (key : String) :
    (m.erase key).entries.Sublist m.entries :=
  List.filter_sublist

theorem strikeStamp_sublist (dirty : Keyed Nat) (e : String × Nat) :
    (strikeStamp dirty e).entries.Sublist dirty.entries := by
  unfold strikeStamp
  split
  · exact erase_sublist dirty e.1
  · exact List.Sublist.refl _

/-- Striking off leaves some of the stamps. -/
theorem foldl_strikeStamp_sublist (ns : List (String × Nat)) (dirty : Keyed Nat) :
    (ns.foldl strikeStamp dirty).entries.Sublist dirty.entries := by
  induction ns generalizing dirty with
  | nil => exact List.Sublist.refl _
  | cons n ns ih => exact (ih _).trans (strikeStamp_sublist dirty n)

theorem foldl_erase_sublist (keys : List String) (dirty : Keyed Nat) :
    (keys.foldl Keyed.erase dirty).entries.Sublist dirty.entries := by
  induction keys generalizing dirty with
  | nil => exact List.Sublist.refl _
  | cons key keys ih => exact (ih _).trans (erase_sublist dirty key)

/-- A stamp that is not among those struck off stays. -/
theorem foldl_strikeStamp_get? {ns : List (String × Nat)} {dirty : Keyed Nat} {key : String}
    {n : Nat} (h : dirty.get? key = some n) (hne : (key, n) ∉ ns) :
    (ns.foldl strikeStamp dirty).get? key = some n := by
  induction ns generalizing dirty with
  | nil => exact h
  | cons m ns ih =>
      rw [List.mem_cons, not_or] at hne
      refine ih ?_ hne.2
      unfold strikeStamp
      split
      · next hstruck =>
          have hkey : m.1 ≠ key := by
            intro hkey
            rw [hkey, h] at hstruck
            exact hne.1 (by rw [← hkey, Option.some.inj hstruck])
          rw [Keyed.get?_erase, if_neg hkey, h]
      · exact h

/-- A stamp above all that were noted is not struck off. -/
theorem strikeUnchanged_get?_of_lt {d : Documents} {noted : Keyed Nat} {limit : Nat}
    (hnoted : ∀ e ∈ noted.entries, e.2 ≤ limit) {key : String} {n : Nat}
    (h : d.dirty.get? key = some n) (hlt : limit < n) :
    (d.strikeUnchanged noted).dirty.get? key = some n :=
  foldl_strikeStamp_get? h fun hmem => absurd (hnoted _ hmem) (Nat.not_le.2 hlt)

/-- Striking the first stamp off leaves the others. -/
theorem strikeStamp_cons {e : String × Nat} {es : List (String × Nat)} (h : e.1 ∉ es.map Prod.fst) :
    strikeStamp ⟨e :: es⟩ e = ⟨es⟩ := by
  have hfound : Keyed.get? ⟨e :: es⟩ e.1 = some e.2 := by simp [Keyed.get?, Keyed.lookup]
  have hothers : es.filter (fun e' => e'.1 ≠ e.1) = es := by
    rw [List.filter_eq_self]
    intro e' he'
    exact decide_eq_true fun heq => h (heq ▸ List.mem_map_of_mem he')
  rw [strikeStamp, if_pos hfound, Keyed.erase, List.filter_cons, if_neg (by simp), hothers]

theorem foldl_strikeStamp_self {es : List (String × Nat)} (h : (es.map Prod.fst).Nodup) :
    es.foldl strikeStamp ⟨es⟩ = ⟨[]⟩ := by
  induction es with
  | nil => rfl
  | cons e es ih =>
      obtain ⟨he, hes⟩ := List.nodup_cons.1 h
      rw [List.foldl_cons, strikeStamp_cons he, ih hes]

/-- Striking all stamps off leaves none. -/
theorem Kept.strikeUnchanged_self {d : Documents} (h : d.Kept) :
    (d.strikeUnchanged d.dirty).dirty = .empty :=
  foldl_strikeStamp_self h.stampedOnce

/-! ### Reachable documents -/

/-- The documents that changes and striking off lead to, with URIs seen from a working directory. -/
inductive Reachable (wd : Path) : Documents → Prop
  | empty : Reachable wd empty
  | update {d : Documents} (h : Reachable wd d) (uri content : String) :
      Reachable wd (d.update wd uri content).1
  | remove {d d' : Documents} {s? : Option Source} (h : Reachable wd d) {uri : String}
      (hremove : d.remove wd uri = .ok (d', s?)) : Reachable wd d'
  | replaceAll {d : Documents} (h : Reachable wd d) (sources : List Source) :
      Reachable wd (d.replaceAll wd sources).1
  | strike {d : Documents} (h : Reachable wd d) (keys : List String) : Reachable wd (d.strike keys)
  | strikeUnchanged {d : Documents} (h : Reachable wd d) (noted : Keyed Nat) :
      Reachable wd (d.strikeUnchanged noted)

/-- What holds without sources and stamps, and is kept by putting a source, by removing a key and by
striking stamps off, holds of all reachable documents. -/
theorem Reachable.holds {P : Documents → Prop} (cleared : ∀ changes, P ⟨.empty, .empty, changes⟩)
    (put : ∀ d key s, P d → P (d.put key s)) (removed : ∀ d key, P d → P (d.removeKey key).1)
    (struck : ∀ d dirty, dirty.entries.Sublist d.dirty.entries → P d → P { d with dirty })
    {wd : Path} {d : Documents} (h : Reachable wd d) : P d := by
  induction h with
  | empty => exact cleared 0
  | @update d h uri content ih =>
      rcases update_cases d wd uri content with heq | ⟨path, -, -, heq⟩
      · rwa [heq]
      · rw [heq]
        exact put _ _ _ ih
  | @remove d d' s? h uri hremove ih =>
      rcases remove_cases d wd uri with ⟨e, heq⟩ | ⟨key, -, heq⟩
      · simp [heq] at hremove
      · rw [heq] at hremove
        obtain rfl := (Prod.mk.inj (Except.ok.inj hremove)).1
        exact removed _ key ih
  | @replaceAll d h sources ih => exact holds_putAll put (cleared d.changes) wd sources
  | strike h keys ih => exact struck _ _ (foldl_erase_sublist keys _) ih
  | strikeUnchanged h noted ih => exact struck _ _ (foldl_strikeStamp_sublist noted.entries _) ih

/-- Reachable documents are kept well. -/
theorem Reachable.kept {wd : Path} {d : Documents} (h : Reachable wd d) : d.Kept :=
  h.holds kept_cleared (fun _ key s h => h.put key s) (fun _ key h => h.removeKey key)
    fun _ _ hsub h => h.of_dirty hsub

end Npl.Documents
