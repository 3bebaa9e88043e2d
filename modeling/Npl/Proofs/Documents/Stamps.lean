import Mathlib.Data.List.Nodup
import Npl.Proofs.Documents

/-!
# Stamps

Whoever compiles notes the stamps of the changed documents first and has them struck off in the end.
In between there may be any number of changes, and others may strike off what they noted. A note may
be as old as it likes: it strikes off exactly those of its documents that still wait and have not
been changed since.

That rests on what a stamp tells. A stamp that is not above the number of changes at the time of the
note was there then, and no change has been about its document since. A greater one was given since.

## Main definitions

* `Documents.Call` — what can be done to the documents.
* `Documents.run` — what several calls lead to.
* `Documents.Call.touched` — the keys that a call stamps.
* `Documents.Stems` — where a stamp comes from.

## Main results

* `Documents.Call.stems` — where the stamps after a call come from.
* `Documents.stems_run` — where the stamps after several calls come from.
* `Documents.Reachable.stampsApart` — no two documents have the same stamp.
* `Documents.strikeUnchanged_exact` — what an old note strikes off.
-/

namespace Npl.Documents

/-! ### Calls -/

/-- What can be done to the documents. -/
inductive Call
  | update (uri content : String)
  | remove (uri : String)
  | replaceAll (sources : List Source)
  | strike (keys : List String)
  | strikeUnchanged (noted : Keyed Nat)

namespace Call

/-- The documents after a call. A removal that is refused changes nothing. -/
def apply (wd : Path) (d : Documents) : Call → Documents
  | update uri content => (d.update wd uri content).1
  | remove uri =>
    match d.remove wd uri with
    | .ok (d', _) => d'
    | .error _ => d
  | replaceAll sources => (d.replaceAll wd sources).1
  | strike keys => d.strike keys
  | strikeUnchanged noted => d.strikeUnchanged noted

/-- The keys of sources, up to the first source whose URI makes no sense. -/
def keysOf (wd : Path) : List Source → List String
  | [] => []
  | s :: ss =>
    match canonicalUri wd s.uri with
    | .error _ => []
    | .ok key => key :: keysOf wd ss

/-- The keys of the documents that a call is about, if it is not refused. Striking off is about
stamps, not about documents. -/
def touched (wd : Path) : Call → List String
  | update uri _ =>
    match Path.ofUri uri with
    | .error _ => []
    | .ok path => if path.isSource then [path.toUri wd] else []
  | remove uri =>
    match canonicalUri wd uri with
    | .error _ => []
    | .ok key => [key]
  | replaceAll sources => keysOf wd sources
  | strike _ => []
  | strikeUnchanged _ => []

end Call

/-- The documents after several calls. -/
def run (wd : Path) (d : Documents) (calls : List Call) : Documents :=
  calls.foldl (fun d call => call.apply wd d) d

section

variable {wd : Path} {d : Documents} {key : String} {n : Nat}

theorem run_append (calls calls' : List Call) :
    run wd d (calls ++ calls') = run wd (run wd d calls) calls' :=
  List.foldl_append

theorem Reachable.apply (h : Reachable wd d) (call : Call) : Reachable wd (call.apply wd d) := by
  cases call with
  | update uri content => exact h.update uri content
  | remove uri =>
      simp only [Call.apply]
      cases hremove : d.remove wd uri with
      | error e => exact h
      | ok removed => exact h.remove hremove
  | replaceAll sources => exact h.replaceAll sources
  | strike keys => exact h.strike keys
  | strikeUnchanged noted => exact h.strikeUnchanged noted

theorem Reachable.run (h : Reachable wd d) (calls : List Call) :
    Reachable wd (run wd d calls) := by
  induction calls generalizing d with
  | nil => exact h
  | cons call calls ih => exact ih (h.apply call)

end

/-! ### Where stamps come from -/

/-- A stamp that some calls leave: it was given by one of them, which was about its key, or it was
there before, and none of them was about its key. -/
def Stems (d : Documents) (touched : List String) (key : String) (n : Nat) : Prop :=
  d.changes < n ∧ key ∈ touched ∨ d.dirty.get? key = some n ∧ key ∉ touched

section

variable {wd : Path} {d : Documents} {key other : String} {n : Nat}

theorem stems_touch (h : (d.touch other).dirty.get? key = some n) : d.Stems [other] key n := by
  rw [touch, Keyed.get?_set] at h
  split at h
  · next heq =>
      obtain rfl := Option.some.inj h
      exact .inl ⟨Nat.lt_succ_self _, List.mem_singleton.2 heq.symm⟩
  · next hne => exact .inr ⟨h, fun hmem => hne (List.mem_singleton.1 hmem).symm⟩

theorem stems_put {s : Source} (h : (d.put other s).dirty.get? key = some n) :
    d.Stems [other] key n :=
  stems_touch (d := { d with sources := _ }) h

theorem stems_removeKey (h : (d.removeKey other).1.dirty.get? key = some n) :
    d.Stems [other] key n :=
  stems_touch (d := { d with sources := _ }) h

/-- What was given later was given later than something earlier, and what was there before may have
been given then. -/
theorem Stems.trans {d' : Documents} {keys keys' : List String} (h' : d'.Stems keys' key n)
    (hchanges : d.changes ≤ d'.changes)
    (h : ∀ {n}, d'.dirty.get? key = some n → d.Stems keys key n) :
    d.Stems (keys ++ keys') key n := by
  rcases h' with ⟨hlater, hkey⟩ | ⟨hthere, hkey'⟩
  · exact .inl ⟨Nat.lt_of_le_of_lt hchanges hlater, List.mem_append_right _ hkey⟩
  · rcases h hthere with ⟨hgiven, hkey⟩ | ⟨hbefore, hkey⟩
    · exact .inl ⟨hgiven, List.mem_append_left _ hkey⟩
    · exact .inr ⟨hbefore, fun hmem => (List.mem_append.1 hmem).elim hkey hkey'⟩

theorem changes_putAll (wd : Path) (ss : List Source) :
    d.changes ≤ (d.putAll wd ss).1.changes :=
  holds_putAll (P := fun d' => d.changes ≤ d'.changes) (fun _ _ _ h => Nat.le_succ_of_le h)
    (Nat.le_refl _) wd ss

/-- Each of several sources is given a stamp. -/
theorem stems_putAll {ss : List Source} (h : (d.putAll wd ss).1.dirty.get? key = some n) :
    d.Stems (Call.keysOf wd ss) key n := by
  induction ss generalizing d with
  | nil => exact .inr ⟨h, List.not_mem_nil⟩
  | cons s ss ih =>
      cases hkey : canonicalUri wd s.uri with
      | error e =>
          simp only [putAll, hkey] at h
          simp only [Call.keysOf, hkey]
          exact .inr ⟨h, List.not_mem_nil⟩
      | ok k =>
          simp only [putAll, hkey] at h
          simp only [Call.keysOf, hkey]
          have hothers : (d.put k s).Stems (Call.keysOf wd ss) key n := ih h
          have hall : d.Stems ([k] ++ Call.keysOf wd ss) key n :=
            hothers.trans (Nat.le_succ _) stems_put
          exact hall

/-- With distinct keys, what is found in a part is found in the whole. -/
theorem get?_of_sublist {dirty dirty' : Keyed Nat} (hnodup : dirty.keys.Nodup)
    (hsub : dirty'.entries.Sublist dirty.entries) (h : dirty'.get? key = some n) :
    dirty.get? key = some n :=
  (Keyed.mem_entries_iff hnodup).1 (hsub.subset (Keyed.mem_of_get? h))

theorem Call.changes_le (wd : Path) (d : Documents) (call : Call) :
    d.changes ≤ (call.apply wd d).changes := by
  cases call with
  | update uri content =>
      rcases d.update_cases wd uri content with heq | ⟨path, -, -, heq⟩
      · simp [apply, heq]
      · simp [apply, heq, put, touch]
  | remove uri =>
      rcases d.remove_cases wd uri with ⟨e, heq⟩ | ⟨key, -, heq⟩
      · simp [apply, heq]
      · simp [apply, heq, removeKey, touch]
  | replaceAll sources => exact changes_putAll (d := ⟨.empty, .empty, d.changes⟩) wd sources
  | strike keys => exact Nat.le_refl _
  | strikeUnchanged noted => exact Nat.le_refl _

/-- **Where the stamps after a call come from.** -/
theorem Call.stems (hd : d.Kept) (call : Call) (h : (call.apply wd d).dirty.get? key = some n) :
    d.Stems (call.touched wd) key n := by
  cases call with
  | update uri content =>
      simp only [apply, Documents.update] at h
      simp only [touched]
      cases hpath : Path.ofUri uri with
      | error e =>
          rw [hpath] at h
          exact .inr ⟨h, List.not_mem_nil⟩
      | ok path =>
          rw [hpath] at h
          dsimp only at h ⊢
          split at h
          · next hsource =>
              rw [if_pos hsource]
              exact stems_put h
          · next hsource =>
              rw [if_neg hsource]
              exact .inr ⟨h, List.not_mem_nil⟩
  | remove uri =>
      simp only [apply, Documents.remove] at h
      simp only [touched]
      cases hkey : canonicalUri wd uri with
      | error e =>
          rw [hkey] at h
          exact .inr ⟨h, List.not_mem_nil⟩
      | ok k =>
          rw [hkey] at h
          exact stems_removeKey h
  | replaceAll sources =>
      rcases stems_putAll (d := ⟨.empty, .empty, d.changes⟩) h with hgiven | ⟨hthere, -⟩
      · exact .inl hgiven
      · cases hthere
  | strike keys =>
      exact .inr ⟨get?_of_sublist hd.stampedOnce (foldl_erase_sublist keys _) h, List.not_mem_nil⟩
  | strikeUnchanged noted =>
      exact .inr ⟨get?_of_sublist hd.stampedOnce (foldl_strikeStamp_sublist _ _) h,
        List.not_mem_nil⟩

theorem changes_run (calls : List Call) : d.changes ≤ (run wd d calls).changes := by
  induction calls generalizing d with
  | nil => exact Nat.le_refl _
  | cons call calls ih => exact Nat.le_trans (call.changes_le wd d) ih

/-- **Where the stamps after several calls come from.** -/
theorem stems_run (hd : Reachable wd d) {calls : List Call}
    (h : (run wd d calls).dirty.get? key = some n) :
    d.Stems (calls.flatMap (Call.touched wd)) key n := by
  induction calls generalizing d with
  | nil => exact .inr ⟨h, List.not_mem_nil⟩
  | cons call calls ih =>
      exact (ih (hd.apply call) h).trans (call.changes_le wd d) (call.stems hd.kept)

/-- A replacement leaves no stamp that was there before. -/
theorem lt_of_replaceAll (hd : Reachable wd d) {calls : List Call} {sources : List Source}
    (hmem : .replaceAll sources ∈ calls) (h : (run wd d calls).dirty.get? key = some n) :
    d.changes < n := by
  obtain ⟨before, after, rfl⟩ := List.append_of_mem hmem
  have hreplaced := (hd.run before).apply (.replaceAll sources)
  have hbefore : d.changes ≤ (run wd d before).changes := changes_run before
  rw [run_append] at h
  rcases stems_run hreplaced h with ⟨hlater, -⟩ | ⟨hthere, -⟩
  · have hreplace := Call.changes_le wd (run wd d before) (.replaceAll sources)
    omega
  · rcases stems_putAll hthere with ⟨hgiven, -⟩ | ⟨hcleared, -⟩
    · exact Nat.lt_of_le_of_lt hbefore hgiven
    · cases hcleared

/-! ### No stamp is given twice -/

/-- No two documents have the same stamp. -/
def StampsApart (d : Documents) : Prop :=
  ∀ key other n, d.dirty.get? key = some n → d.dirty.get? other = some n → key = other

/-- A new stamp is above all others. -/
theorem StampsApart.touch (h : d.StampsApart) (hstamped : ∀ e ∈ d.dirty.entries, e.2 ≤ d.changes)
    (k : String) : (d.touch k).StampsApart := by
  have hnew : ∀ key, d.dirty.get? key ≠ some (d.changes + 1) := fun key hkey =>
    Nat.not_succ_le_self _ (hstamped _ (Keyed.mem_of_get? hkey))
  intro key other n hkey hother
  rw [Documents.touch, Keyed.get?_set] at hkey hother
  split at hkey
  · next hk =>
      obtain rfl := Option.some.inj hkey
      split at hother
      · next hk' => exact hk.symm.trans hk'
      · exact absurd hother (hnew other)
  · split at hother
    · obtain rfl := Option.some.inj hother
      exact absurd hkey (hnew key)
    · exact h key other n hkey hother

theorem StampsApart.of_sublist (h : d.StampsApart) (hd : d.Kept) {dirty : Keyed Nat}
    (hsub : dirty.entries.Sublist d.dirty.entries) : StampsApart { d with dirty } :=
  fun key other n hkey hother => h key other n (get?_of_sublist hd.stampedOnce hsub hkey)
    (get?_of_sublist hd.stampedOnce hsub hother)

theorem StampsApart.put (h : d.StampsApart) (hd : d.Kept) (k : String) (s : Source) :
    (d.put k s).StampsApart :=
  StampsApart.touch (d := { d with sources := _ }) h hd.stamped k

theorem StampsApart.removeKey (h : d.StampsApart) (hd : d.Kept) (k : String) :
    (d.removeKey k).1.StampsApart :=
  StampsApart.touch (d := { d with sources := _ }) h hd.stamped k

/-- **No two documents have the same stamp.** -/
theorem Reachable.stampsApart (h : Reachable wd d) : d.StampsApart := by
  refine (Reachable.holds (P := fun d => d.Kept ∧ d.StampsApart) (fun changes => ?_) ?_ ?_ ?_ h).2
  · exact ⟨kept_cleared changes, fun _ _ _ hkey _ => by cases hkey⟩
  · exact fun d key s ⟨hd, happart⟩ => ⟨hd.put key s, happart.put hd key s⟩
  · exact fun d key ⟨hd, happart⟩ => ⟨hd.removeKey key, happart.removeKey hd key⟩
  · exact fun d dirty hsub ⟨hd, happart⟩ => ⟨hd.of_dirty hsub, happart.of_sublist hd hsub⟩

theorem Reachable.nodup_stamps (h : Reachable wd d) : d.dirty.values.Nodup := by
  have hentries : d.dirty.entries.Nodup := List.Nodup.of_map Prod.fst h.kept.stampedOnce
  refine hentries.map_on fun e he e' he' hstamp => Prod.ext ?_ hstamp
  have hfound := (Keyed.mem_entries_iff h.kept.stampedOnce).1 he
  have hfound' := (Keyed.mem_entries_iff h.kept.stampedOnce).1 he'
  rw [← hstamp] at hfound'
  exact h.stampsApart _ _ _ hfound hfound'

end

/-! ### What a note strikes off -/

/-- Striking a stamp off takes exactly its entry out. -/
theorem entries_strikeStamp {dirty : Keyed Nat} (h : dirty.keys.Nodup) (e : String × Nat) :
    (strikeStamp dirty e).entries = dirty.entries.filter (· ≠ e) := by
  unfold strikeStamp
  split
  · next hfound =>
      refine List.filter_congr fun e' he' => ?_
      have hfound' := (Keyed.mem_entries_iff h).1 he'
      refine decide_eq_decide.2 (not_congr ⟨fun hkey => Prod.ext hkey ?_, congrArg Prod.fst⟩)
      rw [hkey, hfound] at hfound'
      exact (Option.some.inj hfound').symm
  · next hmissing =>
      refine (List.filter_eq_self.2 fun e' he' => decide_eq_true ?_).symm
      rintro rfl
      exact hmissing ((Keyed.mem_entries_iff h).1 he')

theorem entries_foldl_strikeStamp {dirty : Keyed Nat} (h : dirty.keys.Nodup)
    (ns : List (String × Nat)) :
    (ns.foldl strikeStamp dirty).entries = dirty.entries.filter (· ∉ ns) := by
  induction ns generalizing dirty with
  | nil => exact (List.filter_eq_self.2 fun e _ => by simp).symm
  | cons n ns ih =>
      have hkeys : (strikeStamp dirty n).keys.Nodup :=
        h.sublist ((strikeStamp_sublist dirty n).map Prod.fst)
      rw [List.foldl_cons, ih hkeys, entries_strikeStamp h, List.filter_filter]
      refine List.filter_congr fun e _ => ?_
      rw [Bool.eq_iff_iff]
      simp [and_comm]

/-- A stamp that is there now was noted exactly if its key was, and nothing was about it since. -/
theorem mem_noted_iff {wd : Path} {d : Documents} (hd : Reachable wd d) {calls : List Call}
    {e : String × Nat} (he : e ∈ (run wd d calls).dirty.entries) :
    e ∈ d.dirty.entries ↔ e.1 ∈ d.dirty.keys ∧ e.1 ∉ calls.flatMap (Call.touched wd) := by
  have hfound := (Keyed.mem_entries_iff (hd.run calls).kept.stampedOnce).1 he
  constructor
  · intro hnoted
    refine ⟨List.mem_map_of_mem hnoted, ?_⟩
    rcases stems_run hd hfound with ⟨hlater, -⟩ | ⟨-, hkey⟩
    · exact absurd (hd.kept.stamped e hnoted) (Nat.not_le.2 hlater)
    · exact hkey
  · rintro ⟨-, huntouched⟩
    rcases stems_run hd hfound with ⟨-, hkey⟩ | ⟨hthere, -⟩
    · exact absurd hkey huntouched
    · exact Keyed.mem_of_get? hthere

/-- **A note of any age strikes off exactly what it should.** It was taken after some calls, and
others came later. Struck off are those of the noted keys that still wait and that none of the later
calls was about, and nothing else changes. Behind a replacement of all documents nothing is struck
off. No two stamps are the same, and none is above the number of changes. -/
theorem strikeUnchanged_exact (wd : Path) (earlier later : List Call) :
    let before := run wd empty earlier
    let now := run wd before later
    now.strikeUnchanged before.dirty =
      { now with dirty := ⟨now.dirty.entries.filter fun e =>
          ¬ (e.1 ∈ before.dirty.keys ∧ e.1 ∉ later.flatMap (Call.touched wd))⟩ } ∧
    ((∃ sources, .replaceAll sources ∈ later) → now.strikeUnchanged before.dirty = now) ∧
    now.dirty.values.Nodup ∧ ∀ e ∈ now.dirty.entries, e.2 ≤ now.changes := by
  intro before now
  have hbefore : Reachable wd before := Reachable.empty.run earlier
  have hnow : Reachable wd now := hbefore.run later
  have hstruck : now.strikeUnchanged before.dirty =
      { now with dirty := ⟨now.dirty.entries.filter (· ∉ before.dirty.entries)⟩ } := by
    rw [← entries_foldl_strikeStamp hnow.kept.stampedOnce]
    rfl
  refine ⟨?_, fun ⟨sources, hmem⟩ => ?_, hnow.nodup_stamps, hnow.kept.stamped⟩
  · have hfilter : now.dirty.entries.filter (· ∉ before.dirty.entries) =
        now.dirty.entries.filter fun e =>
          ¬ (e.1 ∈ before.dirty.keys ∧ e.1 ∉ later.flatMap (Call.touched wd)) :=
      List.filter_congr fun e he => decide_eq_decide.2 (not_congr (mem_noted_iff hbefore he))
    rw [hstruck, hfilter]
  · have hall : now.dirty.entries.filter (· ∉ before.dirty.entries) = now.dirty.entries := by
      refine List.filter_eq_self.2 fun e he => decide_eq_true fun hnoted => ?_
      have hfound := (Keyed.mem_entries_iff hnow.kept.stampedOnce).1 he
      have hlater := lt_of_replaceAll hbefore hmem hfound
      exact absurd (hbefore.kept.stamped e hnoted) (Nat.not_le.2 hlater)
    rw [hstruck, hall]

/-- Three documents come up. -/
def arrivals : List Call :=
  [.update "file:///a.npl" "", .update "file:///b.npl" "", .update "file:///c.npl" ""]

/-- Two of them are struck off, and one of these is changed once more. -/
def afterwards : List Call :=
  [.strike ["file:///b.npl", "file:///c.npl"], .update "file:///b.npl" "package b"]

/-- Of what was noted when they had come up, only the first document is struck off later: the second
one has a new stamp, and the third one has none. -/
theorem strikeUnchanged_exact_arrivals :
    let before := run ⟨.single, []⟩ empty arrivals
    let now := run ⟨.single, []⟩ before afterwards
    now.dirty.entries = [("file:///a.npl", 1), ("file:///b.npl", 4)] ∧
      now.strikeUnchanged before.dirty = { now with dirty := ⟨[("file:///b.npl", 4)]⟩ } :=
  ⟨by decide +kernel, (strikeUnchanged_exact _ arrivals afterwards).1.trans (by decide +kernel)⟩

end Npl.Documents
