import Mathlib.Data.List.Nodup
import Mathlib.Data.List.Perm.Basic
import StridedTensor.Table

/-!
# Entries of tables

A table read as the list of its entries: what it finds is what is listed (`get?_eq_some`), a new key comes last
(`entries_insert`), and a key that is taken out takes its entry with it (`perm_erase`). Putting a new key in and
taking it out again changes nothing (`erase_insert`).
-/

namespace StridedTensor.Table

variable {α β : Type} {t : Table α} {k : Nat} {v v' : α}

theorem ext_entries {u : Table α} (h : t.entries = u.entries) : t = u := by
  cases t; cases u; cases h; rfl

private theorem eq_of_mem {e e' : Nat × α} (he : e ∈ t.entries) (he' : e' ∈ t.entries) (h : e.1 = e'.1) : e = e' :=
  List.inj_on_of_nodup_map t.nodup he he' h

theorem get?_eq_some : t.get? k = some v ↔ (k, v) ∈ t.entries := by
  unfold get?
  rw [Option.map_eq_some_iff]
  constructor
  · rintro ⟨⟨j, w⟩, hf, rfl⟩
    obtain rfl : j = k := by simpa using List.find?_some hf
    exact List.mem_of_find?_eq_some hf
  · intro h
    cases hf : t.entries.find? (·.1 == k) with
    | none =>
      have hk := List.find?_eq_none.1 hf _ h
      simp at hk
    | some e =>
      have he : e.1 = k := by simpa using List.find?_some hf
      exact ⟨e, rfl, by rw [eq_of_mem (List.mem_of_find?_eq_some hf) h he]⟩

theorem contains_eq_true : t.contains k = true ↔ ∃ v, t.get? k = some v := Option.isSome_iff_exists

theorem contains_eq_false : t.contains k = false ↔ t.get? k = none := by
  unfold contains
  cases t.get? k <;> simp

theorem get?_eq_none : t.get? k = none ↔ ¬ t.contains k = true := by
  rw [Bool.not_eq_true, contains_eq_false]

/-! ### Putting in and taking out -/

private theorem ne_of_get?_none (h : t.get? k = none) {e : Nat × α} (he : e ∈ t.entries) : e.1 ≠ k := by
  rintro rfl
  have hs : t.get? e.1 = some e.2 := get?_eq_some.2 he
  simp [h] at hs

private theorem erase_of_get?_none (h : t.get? k = none) : t.erase k = t := by
  apply ext_entries
  unfold erase
  rw [List.filter_eq_self]
  intro e he
  simpa using ne_of_get?_none h he

theorem entries_insert (h : t.get? k = none) : (t.insert k v).entries = t.entries ++ [(k, v)] := by
  show (t.erase k).entries ++ [(k, v)] = _
  rw [erase_of_get?_none h]

theorem mem_values_of_get? (h : t.get? k = some v) : v ∈ t.values := List.mem_map_of_mem (get?_eq_some.1 h)

theorem exists_get?_of_mem (h : v ∈ t.values) : ∃ k, t.get? k = some v := by
  obtain ⟨⟨k, v'⟩, he, rfl⟩ := List.mem_map.1 h
  exact ⟨k, get?_eq_some.2 he⟩

theorem mem_values_insert (h : v' ∈ (t.insert k v).values) : v' ∈ t.values ∨ v' = v := by
  obtain ⟨j, hj⟩ := exists_get?_of_mem h
  rw [get?_insert] at hj
  split at hj
  · exact .inr (Option.some.inj hj).symm
  · exact .inl (mem_values_of_get? hj)

theorem erase_insert (h : t.get? k = none) : (t.insert k v).erase k = t := by
  apply ext_entries
  show (t.insert k v).entries.filter (·.1 != k) = _
  rw [entries_insert h, List.filter_append]
  have hkeep : t.entries.filter (·.1 != k) = t.entries := congrArg Table.entries (erase_of_get?_none h)
  rw [hkeep]
  simp

theorem perm_erase (h : t.get? k = some v) : t.entries.Perm ((k, v) :: (t.erase k).entries) := by
  have hmem := get?_eq_some.1 h
  -- the entries under `k` are this one alone
  have hone : t.entries.filter (·.1 == k) = [(k, v)] := by
    have hnodup : (t.entries.filter (·.1 == k)).Nodup := (List.Nodup.of_map _ t.nodup).filter _
    apply List.perm_singleton.1
    rw [List.perm_ext_iff_of_nodup hnodup (List.nodup_singleton _)]
    intro e
    rw [List.mem_filter, List.mem_singleton, beq_iff_eq]
    exact ⟨fun he => eq_of_mem he.1 hmem he.2, fun he => by rw [he]; exact ⟨hmem, rfl⟩⟩
  have hsplit := List.filter_append_perm (fun e : Nat × α => e.1 == k) t.entries
  rw [hone] at hsplit
  exact hsplit.symm

/-! ### Changing values -/

def map (f : α → β) (t : Table α) : Table β :=
  ⟨t.entries.map fun e => (e.1, f e.2), by rw [List.map_map]; exact t.nodup⟩

theorem get?_map (f : α → β) (t : Table α) (k : Nat) : (t.map f).get? k = (t.get? k).map f := by
  unfold get? map
  rw [List.find?_map, Option.map_map, Option.map_map]
  rfl

theorem values_map (f : α → β) (t : Table α) : (t.map f).values = t.values.map f := by
  simp [values, map]

theorem map_eq_self {f : α → α} (h : ∀ v ∈ t.values, f v = v) : t.map f = t := by
  apply ext_entries
  refine (List.map_congr_left fun e he => ?_).trans (List.map_id t.entries)
  rw [h e.2 (List.mem_map_of_mem he)]
  rfl

theorem map_map {γ : Type} (f : α → β) (g : β → γ) (t : Table α) : (t.map f).map g = t.map fun v => g (f v) := by
  apply ext_entries
  simp [map]

theorem erase_map (f : α → β) (t : Table α) (k : Nat) : (t.map f).erase k = (t.erase k).map f := by
  apply ext_entries
  simp only [erase, map, List.filter_map]
  rfl

theorem insert_map (f : α → β) (t : Table α) (k : Nat) (v : α) : (t.map f).insert k (f v) = (t.insert k v).map f := by
  apply ext_entries
  show ((t.map f).erase k).entries ++ [(k, f v)] = ((t.erase k).entries ++ [(k, v)]).map fun e => (e.1, f e.2)
  rw [erase_map, List.map_append]
  rfl

theorem replace_map (f : α → β) (t : Table α) (k : Nat) (v : α) :
    (t.map f).replace k (f v) = (t.replace k v).map f := by
  apply ext_entries
  simp only [replace, map, List.map_map]
  apply List.map_congr_left
  intro e _
  by_cases hk : e.1 = k <;> simp [hk]

/-- Replacing a value by one that `f` does not tell apart from it. -/
theorem map_replace {f : α → β} (h : t.get? k = some v) (hf : f v' = f v) : (t.replace k v').map f = t.map f := by
  apply ext_entries
  show (t.entries.map fun e => if e.1 == k then (k, v') else e).map (fun e => (e.1, f e.2)) = _
  rw [List.map_map]
  apply List.map_congr_left
  intro e he
  by_cases hk : e.1 = k
  · obtain rfl : e = (k, v) := eq_of_mem he (get?_eq_some.1 h) hk
    simp [hf]
  · simp [hk]

theorem replace_of_get? (h : t.get? k = some v) : t.replace k v = t := by
  apply ext_entries
  refine (List.map_congr_left ?_).trans (List.map_id t.entries)
  intro e he
  by_cases hk : e.1 = k
  · obtain rfl : e = (k, v) := eq_of_mem he (get?_eq_some.1 h) hk
    simp
  · simp [hk]

end StridedTensor.Table
