import StridedTensor.Proofs.Selection

/-!
# Greatest and least numbers

The reduction to the maximum and that to the minimum select an element of the list, the first of the greatest or of the
least numbers, although they begin with an infinity that need not be an element. NaNs do not matter wherever they stand,
and a list can be reduced in parts (`ReduceOp.reduce_extremal`). The minimum is the maximum with all signs reversed
(`ReduceOp.reduce_min`), so only the maximum is looked at.
-/

namespace StridedTensor

namespace Binary

variable {f : Format} (x y : Binary f)

/-! ### Negation -/

private theorem magnitude_neg : x.neg.magnitude = x.magnitude := magnitude_ofMagnitude _ x.magnitude_lt

private theorem isNegative_neg : x.neg.isNegative = !x.isNegative := isNegative_ofMagnitude _ x.magnitude_lt

@[simp] theorem neg_neg : x.neg.neg = x := by
  conv_lhs => rw [neg, isNegative_neg, magnitude_neg, Bool.not_not, ofMagnitude_magnitude]

@[simp] theorem isNaN_neg : x.neg.isNaN = x.isNaN := by rw [isNaN, magnitude_neg, isNaN]

private theorem rank_neg : x.neg.rank = -x.rank := by
  unfold rank
  rw [isNegative_neg, magnitude_neg]
  cases x.isNegative <;> simp

@[simp] theorem lt_neg : x.neg.lt y.neg = y.lt x := by
  unfold lt
  rw [isNaN_neg, isNaN_neg, rank_neg, rank_neg, Bool.and_comm (!x.isNaN), decide_eq_decide.2 Int.neg_lt_neg_iff]

@[simp] theorem same_neg : x.neg.same y.neg = x.same y := by
  unfold same
  rw [isNaN_neg, isNaN_neg, rank_neg, rank_neg, decide_eq_decide.2 Int.neg_inj]

private theorem neg_infinity (negative : Bool) : (infinity negative : Binary f).neg = infinity (!negative) := by
  rw [neg, infinity, isNegative_ofMagnitude _ f.infinityBits_lt, magnitude_ofMagnitude _ f.infinityBits_lt, infinity]

/-! ### The first of the extreme elements -/

/-- A number in the list that no element is beyond, and the first of the elements that are equal to it. -/
structure IsFirstExtreme (beyond : Binary f → Binary f → Bool) (xs : List (Binary f)) (m : Binary f) : Prop where
  number : m.isNaN = false
  extreme : ∀ x ∈ xs, beyond x m = false
  first : ∃ i : Nat, xs[i]? = some m ∧ ∀ k < i, ∀ x, xs[k]? = some x → x.same m = false

variable {x y} {xs : List (Binary f)} {m : Binary f}

/-- What comes first of the least elements comes first of the greatest ones after negation. -/
private theorem IsFirstExtreme.of_neg (h : IsFirstExtreme (fun x m => m.lt x) (xs.map neg) m) :
    IsFirstExtreme lt xs m.neg := by
  obtain ⟨i, hi, hfirst⟩ := h.first
  obtain ⟨a, ha, rfl⟩ := Option.map_eq_some_iff.1 (List.getElem?_map ▸ hi)
  rw [neg_neg]
  refine ⟨(isNaN_neg a).symm.trans h.number, fun x hx => ?_, i, ha, fun k hk x hx => ?_⟩
  · rw [← lt_neg]
    exact h.extreme _ (List.mem_map_of_mem hx)
  · rw [← same_neg]
    exact hfirst k hk _ (by rw [List.getElem?_map, hx]; rfl)

/-- Nothing is less than minus infinity. -/
private theorem lt_infinity (x : Binary f) : x.lt (infinity true) = false := by
  cases hx : x.isNaN with
  | true => simp [lt, hx]
  | false =>
    have hle := magnitude_le x hx
    rw [lt_eq_false_iff hx (isNaN_infinity true), rank, rank, infinity, isNegative_ofMagnitude _ f.infinityBits_lt,
      magnitude_ofMagnitude _ f.infinityBits_lt, if_pos rfl]
    split <;> omega

/-- Minus infinity is found as well, if nothing is greater. -/
theorem Leads.isFirstExtreme (hf : 0 < f.infinityBits) (h : Leads xs m) (hxs : ∃ x ∈ xs, x.isNaN = false) :
    IsFirstExtreme (fun x m => m.lt x) xs m := by
  refine ⟨h.number, h.greatest, ?_⟩
  rcases h.first with rfl | ⟨i, hi⟩
  · have hlowest {x : Binary f} (hx : x ∈ xs) (hnan : x.isNaN = false) : x = infinity true :=
      eq_infinity_of_not_lt hf hnan (h.greatest x hx)
    obtain ⟨x, hx, hnan⟩ := hxs
    obtain ⟨before, after, hsplit, hbefore⟩ := List.eq_append_cons_of_mem (hlowest hx hnan ▸ hx)
    refine ⟨before.length, by rw [hsplit]; simp, fun k hk y hy => ?_⟩
    -- an earlier number would be minus infinity itself
    have hmem := List.mem_of_getElem? hy
    rw [hsplit, List.getElem?_append_left hk] at hy
    cases hynan : y.isNaN with
    | true => rw [same, hynan]; rfl
    | false => exact absurd (hlowest hmem hynan ▸ List.mem_of_getElem? hy) hbefore
  · exact ⟨i, hi.getElem?, hi.first⟩

end Binary

namespace ReduceOp

open Binary

variable {f : Format} {op : ReduceOp} {a b c m x : Binary f} {xs ys zs : List (Binary f)}

/-! ### One step -/

private theorem isNaN_combine_max (ha : a.isNaN = false) (x : Binary f) : (max.combine a x).isNaN = false := by
  show (if a.lt x then x else a).isNaN = false
  split
  · rename_i h
    exact (lt_iff.1 h).2.1
  · exact ha

private theorem combine_of_isNaN (hop : op = max ∨ op = min) (hx : x.isNaN = true) : op.combine m x = m := by
  rcases hop with rfl | rfl <;> simp [combine, lt, hx]

/-- The infinity that a maximum begins with gives way to any number. -/
theorem identity_combine (hf : 0 < f.infinityBits) (hx : x.isNaN = false) : max.combine (max.identity f) x = x := by
  show (if (infinity true).lt x then x else infinity true) = x
  split
  · rfl
  · rename_i h
    exact (eq_infinity_of_not_lt hf hx (Bool.not_eq_true _ ▸ h)).symm

theorem combine_identity (x : Binary f) : max.combine x (max.identity f) = x := by
  show (if x.lt (infinity true) then infinity true else x) = x
  rw [lt_infinity, if_neg Bool.false_ne_true]

theorem combine_assoc (ha : a.isNaN = false) (hb : b.isNaN = false) (hc : c.isNaN = false) :
    max.combine (max.combine a b) c = max.combine a (max.combine b c) := by
  simp only [combine, lt, ha, hb, hc, Bool.not_false, Bool.true_and, decide_eq_true_eq]
  by_cases hab : a.rank < b.rank <;> by_cases hbc : b.rank < c.rank <;> by_cases hac : a.rank < c.rank <;>
    first | omega | simp [hab, hbc, hac, ha, hb, hc]

private theorem min_combine (a x : Binary f) : min.combine a x = (max.combine a.neg x.neg).neg := by
  show (if x.lt a then x else a) = (if a.neg.lt x.neg then x.neg else a.neg).neg
  rw [lt_neg]
  split <;> rw [neg_neg]

/-! ### The whole list -/

theorem leads_foldl (xs : List (Binary f)) : Leads xs (xs.foldl max.combine (max.identity f)) := Leads.nil.foldl xs

/-- What has been found so far may as well be compared at the end. -/
private theorem foldl_combine (hf : 0 < f.infinityBits) (hm : m.isNaN = false) (xs : List (Binary f)) :
    xs.foldl max.combine m = max.combine m (xs.foldl max.combine (max.identity f)) := by
  induction xs generalizing m with
  | nil => exact (combine_identity m).symm
  | cons x xs ih =>
    have hid : (max.identity f).isNaN = false := isNaN_infinity true
    have hrest := (leads_foldl xs).number
    rw [List.foldl_cons, List.foldl_cons, ih (isNaN_combine_max hm x), ih (isNaN_combine_max hid x)]
    cases hx : x.isNaN with
    | true =>
      rw [combine_of_isNaN (.inl rfl) hx, combine_of_isNaN (.inl rfl) hx, identity_combine hf hrest]
    | false => rw [identity_combine hf hx, combine_assoc hm hx hrest]

private theorem foldl_min (xs : List (Binary f)) (m : Binary f) :
    xs.foldl min.combine m = ((xs.map neg).foldl max.combine m.neg).neg := by
  induction xs generalizing m with
  | nil => exact (neg_neg m).symm
  | cons x xs ih => rw [List.foldl_cons, ih, List.map_cons, List.foldl_cons, min_combine, neg_neg]

/-! ### Reductions -/

theorem reduce_eq_foldl (hop : op = max ∨ op = min) (hxs : ∃ x ∈ xs, x.isNaN = false) :
    op.reduce xs = xs.foldl op.combine (op.identity f) := by
  cases xs with
  | nil => simp at hxs
  | cons x xs => rcases hop with rfl | rfl <;> rfl

private theorem exists_map_neg (hxs : ∃ x ∈ xs, x.isNaN = false) : ∃ x ∈ xs.map neg, x.isNaN = false := by
  obtain ⟨x, hx, hnan⟩ := hxs
  exact ⟨x.neg, List.mem_map_of_mem hx, (isNaN_neg x).trans hnan⟩

theorem reduce_min (hxs : ∃ x ∈ xs, x.isNaN = false) : min.reduce xs = (max.reduce (xs.map neg)).neg := by
  rw [reduce_eq_foldl (.inr rfl) hxs, reduce_eq_foldl (.inl rfl) (exists_map_neg hxs), foldl_min]
  exact congrArg (fun m => ((xs.map neg).foldl max.combine m).neg) (neg_infinity false)

/-- NaNs are passed over wherever they stand. -/
theorem reduce_filter (hop : op = max ∨ op = min) (hxs : ∃ x ∈ xs, x.isNaN = false) :
    op.reduce (xs.filter fun x => !x.isNaN) = op.reduce xs := by
  have hfilter : ∃ x ∈ xs.filter fun x => !x.isNaN, x.isNaN = false := by
    obtain ⟨x, hx, hnan⟩ := hxs
    exact ⟨x, List.mem_filter.2 ⟨hx, by rw [hnan]; rfl⟩, hnan⟩
  rw [reduce_eq_foldl hop hfilter, reduce_eq_foldl hop hxs, List.foldl_filter]
  congr 1
  funext m x
  cases hx : x.isNaN with
  | true => exact (combine_of_isNaN hop hx).symm
  | false => rfl

private theorem exists_mem_append (hxs : ∃ x ∈ xs, x.isNaN = false) (ys : List (Binary f)) :
    ∃ z ∈ xs ++ ys, z.isNaN = false :=
  hxs.imp fun _ h => ⟨List.mem_append_left ys h.1, h.2⟩

theorem reduce_append_max (hf : 0 < f.infinityBits) (hxs : ∃ x ∈ xs, x.isNaN = false)
    (hys : ∃ y ∈ ys, y.isNaN = false) : max.reduce (xs ++ ys) = max.reduce [max.reduce xs, max.reduce ys] := by
  have hleft := (leads_foldl xs).number
  rw [reduce_eq_foldl (.inl rfl) (exists_mem_append hxs ys), List.foldl_append, foldl_combine hf hleft]
  rw [← reduce_eq_foldl (.inl rfl) hxs] at hleft ⊢
  rw [← reduce_eq_foldl (.inl rfl) hys, reduce_eq_foldl (.inl rfl) ⟨_, List.mem_cons_self, hleft⟩, List.foldl_cons,
    List.foldl_cons, List.foldl_nil, identity_combine hf hleft]

theorem reduce_append_min (hf : 0 < f.infinityBits) (hxs : ∃ x ∈ xs, x.isNaN = false)
    (hys : ∃ y ∈ ys, y.isNaN = false) : min.reduce (xs ++ ys) = min.reduce [min.reduce xs, min.reduce ys] := by
  have hleft : (min.reduce xs).isNaN = false := by
    rw [reduce_min hxs, isNaN_neg, reduce_eq_foldl (.inl rfl) (exists_map_neg hxs)]
    exact (leads_foldl _).number
  rw [reduce_min ⟨_, List.mem_cons_self, hleft⟩, reduce_min (exists_mem_append hxs ys), reduce_min hxs, reduce_min hys, List.map_append,
    reduce_append_max hf (exists_map_neg hxs) (exists_map_neg hys), List.map_cons, List.map_cons, List.map_nil, neg_neg,
    neg_neg]

/-- What a reduction to an extreme yields for a list: the first of the extreme elements. It is the same for every list of
the same numbers, whatever NaNs are among them, and the same if the list and another one are reduced before. -/
structure Extremal (op : ReduceOp) (beyond : Binary f → Binary f → Bool) (xs : List (Binary f)) : Prop where
  first : IsFirstExtreme beyond xs (op.reduce xs)
  numbers : ∀ zs, (zs.filter fun x => !x.isNaN) = (xs.filter fun x => !x.isNaN) → op.reduce zs = op.reduce xs
  parts : ∀ ys, (∃ y ∈ ys, y.isNaN = false) → op.reduce (xs ++ ys) = op.reduce [op.reduce xs, op.reduce ys]

/-- Of numbers as the kernels accumulate them, one of which at least is not a NaN, the maximum is the first of the
greatest ones and the minimum the first of the least ones. -/
theorem reduce_extremal (t : FloatType) {xs : List (Binary t.accumulator)} (hxs : ∃ x ∈ xs, x.isNaN = false) :
    Extremal max (fun x m => m.lt x) xs ∧ Extremal min (fun x m => x.lt m) xs := by
  have hf : 0 < t.accumulator.infinityBits := by cases t <;> decide
  have hnumbers {op : ReduceOp} (hop : op = max ∨ op = min) (zs : List (Binary t.accumulator))
      (h : (zs.filter fun x => !x.isNaN) = (xs.filter fun x => !x.isNaN)) : op.reduce zs = op.reduce xs := by
    have hzs : ∃ z ∈ zs, z.isNaN = false := by
      obtain ⟨x, hx, hnan⟩ := hxs
      have hmem : x ∈ zs.filter fun x => !x.isNaN := h ▸ List.mem_filter.2 ⟨hx, by rw [hnan]; rfl⟩
      exact ⟨x, (List.mem_filter.1 hmem).1, hnan⟩
    rw [← reduce_filter hop hzs, h, reduce_filter hop hxs]
  constructor
  · refine ⟨?_, hnumbers (.inl rfl), fun ys hys => reduce_append_max hf hxs hys⟩
    rw [reduce_eq_foldl (.inl rfl) hxs]
    exact (leads_foldl xs).isFirstExtreme hf hxs
  · refine ⟨?_, hnumbers (.inr rfl), fun ys hys => reduce_append_min hf hxs hys⟩
    have hneg := exists_map_neg hxs
    rw [reduce_min hxs, reduce_eq_foldl (.inl rfl) hneg]
    exact ((leads_foldl _).isFirstExtreme hf hneg).of_neg

/-- Both zeros and minus infinity among NaNs. -/
def zerosAmongNaNs : List (Binary .single) :=
  [.invalid, .infinity true, .zero true, .invalid, .zero false, .infinity true]

/-- The negative zero is the first of the greatest, and minus infinity is found although the search begins with it. -/
theorem zerosAmongNaNs_extremal : (∃ x ∈ zerosAmongNaNs, x.isNaN = false) ∧
    max.reduce zerosAmongNaNs = .zero true ∧ min.reduce zerosAmongNaNs = .infinity true ∧
    Extremal max (fun x m => m.lt x) zerosAmongNaNs ∧ Extremal min (fun x m => x.lt m) zerosAmongNaNs := by
  have hxs : ∃ x ∈ zerosAmongNaNs, x.isNaN = false := by decide
  exact ⟨hxs, by decide, by decide, reduce_extremal .f32 hxs⟩

end ReduceOp

end StridedTensor
