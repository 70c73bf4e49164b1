import StridedTensor.Dims.Slots

/-!
# Slots and entries

A `Dims` lies in memory as a list with zeros behind its last entry (`Dims.toSlots`), and all slots of a list decide
which one it is (`ext_slot`, `toSlots_inj`). Edits of such a list in memory are edits of the `Dims` (`insert_toSlots`,
`remove_toSlots`, `set?_toSlots`). A loop that overwrites slots leaves a `Dims` if each slot has its entry in the end,
whether the loop wrote it or it was there before (`foldlM_eq_fill`, `fill_eq_toSlots`).
-/

namespace StridedTensor

namespace Slots

variable {kind : DimsKind} {v w : Slots kind} {d e : Dims kind} {i j x : Nat}

/-! ### Single slots -/

theorem ext_slot (hrank : v.rank = w.rank) (h : ∀ i < maxRank, v.slot i = w.slot i) : v = w := by
  have hdata : v.data = w.data := by
    apply Vector.ext
    intro i hi
    simpa [slot, hi] using h i hi
  cases v
  cases w
  simp_all

@[simp] theorem rank_toSlots (d : Dims kind) : d.toSlots.rank = d.rank := rfl

@[simp] theorem slot_toSlots (d : Dims kind) (i : Nat) : d.toSlots.slot i = d.entry i := rfl

@[simp] theorem visible_toSlots (d : Dims kind) : d.toSlots.visible = d.toList := by
  apply List.ext_getElem?
  intro i
  unfold visible
  rw [List.getElem?_take, Dims.getElem?_toList]
  by_cases hi : i < d.rank
  · have hlt : i < maxRank := Nat.lt_of_lt_of_le hi d.rank_le
    simp [Dims.toSlots, Dims.entry, hi, hlt]
  · simp [hi]

theorem toSlots_inj : d.toSlots = e.toSlots ↔ d = e := by
  refine ⟨fun h => ?_, congrArg _⟩
  rw [← Dims.toList_inj, ← visible_toSlots, h, visible_toSlots]

theorem get?_toSlots (h : i < d.rank) : d.toSlots.get? i = some (d.entry i) := by
  unfold get?
  rw [visible_toSlots, Dims.getElem?_toList, if_pos h]

theorem get?_toSlots_of_le (h : d.rank ≤ i) : d.toSlots.get? i = none := by
  unfold get?
  rw [visible_toSlots, Dims.getElem?_toList, if_neg (Nat.not_lt.2 h)]

/-- The list with one slot overwritten. -/
def put (v : Slots kind) (i x : Nat) : Slots kind := { v with data := v.data.setIfInBounds i x }

private theorem slot_put : (v.put i x).slot j = if i = j ∧ j < maxRank then x else v.slot j := by
  unfold slot put
  rw [Vector.getElem?_setIfInBounds]
  by_cases h : i = j
  · subst h
    by_cases hi : i < maxRank <;> simp [hi]
  · simp [h]

theorem write?_eq (hi : i < maxRank) : v.write? i x = some (v.put i x) := by
  unfold write? put
  rw [dif_pos hi]
  congr 2
  ext j hj
  simp [Vector.getElem_set, Vector.getElem_setIfInBounds]

theorem set?_eq (hi : i < v.rank) (hrank : v.rank ≤ maxRank) : v.set? i x = some (v.put i x) := by
  unfold set?
  rw [if_pos hi, write?_eq (Nat.lt_of_lt_of_le hi hrank)]

theorem slot_zeros (n i : Nat) : (zeros n : Slots kind).slot i = 0 := by
  unfold slot zeros
  by_cases hi : i < maxRank <;> simp [hi]

private theorem copyWithin?_eq (v : Slots kind) {start stop target : Nat} (hle : start ≤ stop) (hstop : stop ≤ maxRank)
    (htarget : target + (stop - start) ≤ maxRank) :
    ∃ w, v.copyWithin? start stop target = some w ∧ w.rank = v.rank ∧ ∀ i < maxRank, w.slot i =
      if target ≤ i ∧ i < target + (stop - start) then v.slot (start + (i - target)) else v.slot i := by
  unfold copyWithin?
  rw [if_pos ⟨hle, hstop, htarget⟩]
  refine ⟨_, rfl, rfl, fun i hi => ?_⟩
  simp [slot, hi]

/-! ### Edits -/

/-- What an edit of `v` yields and leaves behind: the list that it made, or `v` where it failed. -/
def after {α : Type} (v : Slots kind) : Result (α × Dims kind) → Result α × Slots kind
  | .ok (a, d) => (.ok a, d.toSlots)
  | .error f => (.error f, v)

theorem insert_toSlots (d : Dims kind) (index value : Nat) :
    d.toSlots.insert index value = d.toSlots.after ((d.insert index value).map ((), ·)) := by
  have hle := d.rank_le
  unfold insert Dims.insert
  rw [rank_toSlots]
  by_cases hfull : d.rank = maxRank
  · rw [if_pos hfull, dif_neg (by omega)]
    rfl
  · rw [if_neg hfull, dif_pos (by omega)]
    by_cases hindex : d.rank < index
    · rw [if_pos hindex, if_pos hindex]
      rfl
    · obtain ⟨w, hw, hrank, hslot⟩ := copyWithin?_eq d.toSlots (Nat.le_of_not_lt hindex) hle
        (show index + 1 + (d.rank - index) ≤ maxRank by omega)
      rw [if_neg hindex, if_neg hindex, hw, Option.bind_some, write?_eq (by omega)]
      simp only [Except.map, after]
      rw [Prod.mk.injEq]
      refine ⟨rfl, ext_slot (congrArg (· + 1) hrank) fun i hi => ?_⟩
      show (w.put index value).slot i = _
      rw [slot_put, hslot i hi, slot_toSlots, slot_toSlots, slot_toSlots, Dims.entry_build]
      -- there were zeros behind the last entry before
      have hzero : ¬ i < d.rank + 1 → d.entry i = 0 := fun hge => Dims.entry_eq_zero (by omega)
      grind

theorem push_toSlots (d : Dims kind) (value : Nat) :
    d.toSlots.push value = d.toSlots.after ((d.push value).map ((), ·)) := insert_toSlots d d.rank value

theorem remove_toSlots (d : Dims kind) (index : Nat) : d.toSlots.remove index = d.toSlots.after (d.remove index) := by
  have hle := d.rank_le
  unfold remove Dims.remove
  rw [rank_toSlots]
  by_cases hindex : index < d.rank
  · obtain ⟨w, hw, hrank, hslot⟩ := copyWithin?_eq d.toSlots (show index + 1 ≤ d.rank from hindex) hle
      (show index + (d.rank - (index + 1)) ≤ maxRank by omega)
    rw [if_neg (by omega), if_pos hindex, hw, Option.bind_some, write?_eq (by omega)]
    simp only [after]
    rw [Prod.mk.injEq]
    refine ⟨rfl, ext_slot (congrArg (· - 1) hrank) fun i hi => ?_⟩
    show (w.put (d.rank - 1) 0).slot i = _
    rw [slot_put, hslot i hi, slot_toSlots, slot_toSlots, slot_toSlots]
    unfold Dims.erase
    rw [Dims.entry_build]
    have hzero : d.rank ≤ i → d.entry i = 0 := Dims.entry_eq_zero
    grind
  · rw [if_pos (by omega), if_neg hindex]
    rfl

theorem ofList_eq (xs : List Nat) : (ofList xs : Result (Slots kind)) = (Dims.ofList xs).map Dims.toSlots := by
  unfold ofList Dims.ofList
  by_cases hlen : xs.length ≤ maxRank
  · rw [if_neg (by omega), dif_pos hlen]
    refine congrArg Except.ok (ext_slot rfl fun i hi => ?_)
    rw [slot_toSlots, Dims.entry_build]
    simp only [slot, hi, Vector.getElem?_ofFn, dite_true, Option.getD_some]
    split
    · rfl
    · rename_i hge
      simp [hge]
  · rw [if_pos (by omega), dif_neg hlen]
    rfl

theorem set?_toSlots (h : i < d.rank) : d.toSlots.set? i x = some (d.set i x).toSlots := by
  have hle := d.rank_le
  rw [set?_eq h hle]
  refine congrArg some (ext_slot rfl fun j hj => ?_)
  rw [slot_put, slot_toSlots, slot_toSlots]
  unfold Dims.set
  rw [Dims.entry_build]
  have hzero : ¬ j < d.rank → d.entry j = 0 := fun hge => Dims.entry_eq_zero (by omega)
  grind

theorem swap?_toSlots (hi : i < d.rank) (hj : j < d.rank) : d.toSlots.swap? i j = some (d.swap i j).toSlots := by
  unfold swap? Dims.swap
  rw [get?_toSlots hi, get?_toSlots hj, Option.bind_eq_bind, Option.bind_some, Option.bind_eq_bind, Option.bind_some,
    set?_toSlots hi, Option.bind_some, set?_toSlots (by simpa using hj)]

/-! ### Loops that fill a list -/

/-- The list with the given slots overwritten, one after the other. -/
def fill (v : Slots kind) (cells : List (Nat × Nat)) : Slots kind := cells.foldl (fun w cell => w.put cell.1 cell.2) v

/-- If each cell holds the entry of `d` at its place and the other slots agree with `d` before, then all do after. -/
theorem fill_eq_toSlots {cells : List (Nat × Nat)} (hrank : v.rank = d.rank)
    (hcells : ∀ cell ∈ cells, cell.2 = d.entry cell.1)
    (hrest : ∀ i < maxRank, i ∈ cells.map Prod.fst ∨ v.slot i = d.entry i) : v.fill cells = d.toSlots := by
  induction cells generalizing v with
  | nil => exact ext_slot hrank fun i hi => (hrest i hi).resolve_left (by simp)
  | cons cell cells ih =>
    refine ih hrank (fun c hc => hcells c (List.mem_cons_of_mem _ hc)) fun i hi => ?_
    rw [slot_put]
    have hcell := hcells cell List.mem_cons_self
    rcases hrest i hi with hmem | hslot
    · rw [List.map_cons, List.mem_cons] at hmem
      rcases hmem with rfl | hmem
      · right
        rw [if_pos ⟨rfl, hi⟩, hcell]
      · exact .inl hmem
    · right
      split
      · rename_i heq
        rw [hcell, heq.1]
      · exact hslot

/-- A loop whose steps each overwrite one slot computes all values and fills them in. -/
theorem foldlM_eq_fill {α : Type} {items : List α} {step : Slots kind → α → Option (Slots kind)} (place : α → Nat)
    (value : α → Option Nat)
    (hstep : ∀ w, w.rank = v.rank → ∀ a ∈ items, step w a = (value a).map (w.put (place a))) :
    items.foldlM step v = (items.mapM value).map fun xs => v.fill ((items.map place).zip xs) := by
  induction items generalizing v with
  | nil => rfl
  | cons a items ih =>
    rw [List.foldlM_cons, hstep v rfl a List.mem_cons_self, List.mapM_cons]
    cases value a with
    | none => rfl
    | some x =>
      have hrec := ih (v := v.put (place a) x) fun w hw b hb => hstep w hw b (List.mem_cons_of_mem _ hb)
      simp only [Option.map_some, Option.bind_eq_bind, Option.bind_some, Option.pure_def]
      rw [hrec]
      cases items.mapM value <;> rfl

end Slots

end StridedTensor
