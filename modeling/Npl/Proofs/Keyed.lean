import Npl.Keyed

/-!
# Entries of keyed lists

A keyed list that was made by setting and erasing keys holds each key once. Then its entries are
exactly what looking its keys up finds.

## Main results

* `Keyed.mem_of_mem_set`, `Keyed.mem_of_mem_erase` — where the entries come from.
* `Keyed.nodup_keys_set`, `Keyed.nodup_keys_erase` — the keys stay distinct.
* `Keyed.mem_entries_iff` — the entries are what looking up finds.
* `Keyed.get?_ofList_map` — what is found of values that are worked out from their keys.
-/

namespace Npl.Keyed

variable {α : Type}

/-! ### Entries -/

/-- What is found is an entry. -/
theorem mem_of_get? {m : Keyed α} {key : String} {a : α} (h : m.get? key = some a) :
    (key, a) ∈ m.entries := by
  obtain ⟨es⟩ := m
  simp only [get?] at h
  induction es with
  | nil => simp [lookup] at h
  | cons e es ih =>
      simp only [lookup] at h
      split at h
      · next hkey =>
          obtain rfl := Option.some.inj h
          exact List.mem_cons.2 (.inl (by rw [← hkey]))
      · exact List.mem_cons_of_mem _ (ih h)

/-- Nothing is found exactly for the texts that are no keys. -/
theorem get?_eq_none_iff {m : Keyed α} {key : String} : m.get? key = none ↔ key ∉ m.keys := by
  obtain ⟨es⟩ := m
  simp only [get?, keys]
  induction es with
  | nil => simp [lookup]
  | cons e es ih => grind [lookup]

/-- A text is contained exactly if it is a key. -/
theorem contains_iff {m : Keyed α} {key : String} : m.contains key = true ↔ key ∈ m.keys := by
  cases hfound : m.get? key with
  | none => simp [contains, hfound, get?_eq_none_iff.1 hfound]
  | some a =>
      have hkey : key ∈ m.keys := List.mem_map_of_mem (mem_of_get? hfound)
      simp [contains, hfound, hkey]

/-- An entry after a key was set is the new one or was there before. -/
theorem mem_of_mem_set {m : Keyed α} {key : String} {a : α} {e : String × α}
    (h : e ∈ (m.set key a).entries) : e = (key, a) ∨ e ∈ m.entries := by
  obtain ⟨es⟩ := m
  simp only [set] at h
  induction es with
  | nil => exact .inl (by simpa [put] using h)
  | cons b es ih => grind [put]

/-- An entry after a key was erased was there before, under another key. -/
theorem mem_of_mem_erase {m : Keyed α} {key : String} {e : String × α}
    (h : e ∈ (m.erase key).entries) : e ∈ m.entries ∧ e.1 ≠ key := by
  simpa [erase] using h

/-! ### Keys -/

/-- Erasing a key leaves the other ones in their order. -/
theorem keys_erase (m : Keyed α) (key : String) : (m.erase key).keys = m.keys.filter (· ≠ key) := by
  simp only [keys, erase, List.filter_map]
  rfl

theorem nodup_keys_set {m : Keyed α} (h : m.keys.Nodup) (key : String) (a : α) :
    (m.set key a).keys.Nodup := by
  rw [keys_set]
  split
  · exact h
  · next hnew =>
      rw [List.nodup_append]
      refine ⟨h, by simp, ?_⟩
      rintro k hk other hkey rfl
      rw [List.mem_singleton.1 hkey] at hk
      exact hnew hk

theorem nodup_keys_erase {m : Keyed α} (h : m.keys.Nodup) (key : String) :
    (m.erase key).keys.Nodup := by
  rw [keys_erase]
  exact h.filter _

/-- With distinct keys, the entries are exactly what looking up finds. -/
theorem mem_entries_iff {m : Keyed α} (h : m.keys.Nodup) {key : String} {a : α} :
    (key, a) ∈ m.entries ↔ m.get? key = some a := by
  refine ⟨?_, mem_of_get?⟩
  obtain ⟨es⟩ := m
  simp only [keys, get?] at h ⊢
  induction es with
  | nil => simp
  | cons e es ih =>
      obtain ⟨k, b⟩ := e
      simp only [List.map_cons, List.nodup_cons] at h
      intro hmem
      simp only [lookup]
      rcases List.mem_cons.1 hmem with heq | htail
      · obtain ⟨rfl, rfl⟩ := Prod.mk.inj heq
        simp
      · have hne : k ≠ key := fun hk => h.1 (hk ▸ List.mem_map_of_mem htail)
        rw [if_neg hne]
        exact ih h.2 htail

/-! ### Lists of entries -/

/-- Setting a new key adds an entry at the end. -/
theorem entries_set_of_not_mem {m : Keyed α} {key : String} (h : key ∉ m.keys) (a : α) :
    (m.set key a).entries = m.entries ++ [(key, a)] := by
  obtain ⟨es⟩ := m
  simp only [keys, set] at h ⊢
  induction es with
  | nil => rfl
  | cons e es ih =>
      simp only [List.map_cons, List.mem_cons, not_or] at h
      rw [put, if_neg (fun heq => h.1 heq.symm), ih h.2, List.cons_append]

theorem nodup_keys_ofList (es : List (String × α)) : (ofList es).keys.Nodup := by
  have fold : ∀ m : Keyed α, m.keys.Nodup →
      (es.foldl (fun m e => m.set e.1 e.2) m).keys.Nodup := by
    induction es with
    | nil => exact fun _ hm => hm
    | cons e es ih => exact fun m hm => ih _ (nodup_keys_set hm e.1 e.2)
  exact fold empty List.nodup_nil

/-- Entries with distinct keys are set one behind the other. -/
theorem entries_ofList {es : List (String × α)} (h : (es.map Prod.fst).Nodup) :
    (ofList es).entries = es := by
  have fold : ∀ (m : Keyed α), (m.keys ++ es.map Prod.fst).Nodup →
      (es.foldl (fun m e => m.set e.1 e.2) m).entries = m.entries ++ es := by
    clear h
    induction es with
    | nil => simp
    | cons e es ih =>
        intro m hm
        have hnew : e.1 ∉ m.keys := by
          intro hmem
          rw [List.nodup_append] at hm
          exact hm.2.2 e.1 hmem e.1 (by simp) rfl
        have hset := entries_set_of_not_mem hnew e.2
        have hkeys : (m.set e.1 e.2).keys = m.keys ++ [e.1] := by
          rw [keys_set, if_neg hnew]
        rw [List.foldl_cons, ih _ (by rw [hkeys]; simpa using hm), hset]
        simp
  simpa [ofList, empty] using fold empty (by simpa [keys, empty] using h)

/-- Values that are worked out from the keys are found under them, and nothing else is. -/
theorem get?_ofList_map (f : String → α) (keys : List String) (key : String) :
    (ofList (keys.map fun k => (k, f k))).get? key = if key ∈ keys then some (f key) else none := by
  have fold : ∀ m : Keyed α, ((keys.map fun k => (k, f k)).foldl (fun m e => m.set e.1 e.2) m).get?
      key = if key ∈ keys then some (f key) else m.get? key := by
    induction keys with
    | nil => simp
    | cons k keys ih =>
        intro m
        rw [List.map_cons, List.foldl_cons, ih, get?_set]
        by_cases hlater : key ∈ keys
        · simp [hlater]
        · by_cases hfirst : k = key
          · simp [hfirst]
          · simp [hlater, hfirst, Ne.symm hfirst]
  exact fold empty

end Npl.Keyed
