/-!
# Tables

Finite maps keyed by numbers: buffers by their names, blocks by their addresses. A table is the list of its
entries in the order in which they came, each key once.
-/

namespace StridedTensor

structure Table (α : Type) where
  entries : List (Nat × α)
  nodup : (entries.map Prod.fst).Nodup

namespace Table

variable {α : Type}

def empty : Table α := ⟨[], List.nodup_nil⟩

instance : Inhabited (Table α) := ⟨empty⟩

def get? (t : Table α) (k : Nat) : Option α := (t.entries.find? (·.1 == k)).map Prod.snd

def contains (t : Table α) (k : Nat) : Bool := (t.get? k).isSome

def erase (t : Table α) (k : Nat) : Table α :=
  ⟨t.entries.filter (·.1 != k), List.Nodup.sublist (List.Sublist.map _ List.filter_sublist) t.nodup⟩

/-- The table with `v` at `k`, in the place of what was there. -/
def insert (t : Table α) (k : Nat) (v : α) : Table α :=
  ⟨(t.erase k).entries ++ [(k, v)], by
    rw [List.map_append, List.nodup_append]
    refine ⟨(t.erase k).nodup, by simp, ?_⟩
    intro a ha b hb
    obtain ⟨e, he, rfl⟩ := List.mem_map.1 ha
    simp only [List.map_cons, List.map_nil, List.mem_singleton] at hb
    have := (List.mem_filter.1 he).2
    simp_all⟩

/-- The table with `v` at `k`, if `k` is in it; the order stays. -/
def replace (t : Table α) (k : Nat) (v : α) : Table α :=
  ⟨t.entries.map fun e => if e.1 == k then (k, v) else e, by
    have h : (t.entries.map fun e => if e.1 == k then (k, v) else e).map Prod.fst = t.entries.map Prod.fst := by
      rw [List.map_map]
      apply List.map_congr_left
      intro e _
      by_cases he : e.1 = k <;> simp [he]
    rw [h]; exact t.nodup⟩

def values (t : Table α) : List α := t.entries.map Prod.snd

def size (t : Table α) : Nat := t.entries.length

/-! ### Reading after a change -/

@[simp] theorem get?_empty (k : Nat) : (empty : Table α).get? k = none := rfl

theorem get?_erase (t : Table α) (k j : Nat) : (t.erase k).get? j = if j = k then none else t.get? j := by
  unfold get? erase
  simp only [List.find?_filter]
  by_cases h : j = k
  · subst h
    simp
  · rw [if_neg h]
    congr 1
    congr 1
    funext a
    by_cases ha : a.1 = j <;> simp [ha, h]

theorem get?_insert (t : Table α) (k j : Nat) (v : α) :
    (t.insert k v).get? j = if j = k then some v else t.get? j := by
  have he := get?_erase t k j
  unfold get? at he ⊢
  unfold insert
  rw [List.find?_append]
  by_cases h : j = k
  · subst h
    rw [if_pos rfl, Option.map_eq_none_iff] at he
    simp [he]
  · rw [if_neg h] at he
    have hk : ([(k, v)] : List (Nat × α)).find? (fun a => a.1 == j) = none := by
      have : ¬ k = j := fun e => h e.symm
      simp [this]
    rw [hk, Option.or_none, if_neg h]
    exact he

theorem get?_replace (t : Table α) (k j : Nat) (v : α) :
    (t.replace k v).get? j = if j = k ∧ t.contains k then some v else t.get? j := by
  -- the keys stay, so the same entry is found before and after
  have hkey : ((fun e : Nat × α => e.1 == j) ∘ fun e => if e.1 == k then (k, v) else e) = fun e => e.1 == j := by
    funext e
    by_cases he : e.1 = k <;> simp [he]
  unfold contains get? replace
  rw [List.find?_map, hkey, Option.map_map]
  by_cases h : j = k
  · subst h
    cases hf : t.entries.find? (fun e => e.1 == j) with
    | none => simp
    | some e =>
      have he := List.find?_some hf
      simp_all
  · rw [if_neg fun hc => h hc.1]
    cases hf : t.entries.find? (fun e => e.1 == j) with
    | none => rfl
    | some e =>
      have he : e.1 = j := by simpa using List.find?_some hf
      have hek : ¬ e.1 = k := fun hk => h (he.symm.trans hk)
      simp [hek]

end Table

end StridedTensor
