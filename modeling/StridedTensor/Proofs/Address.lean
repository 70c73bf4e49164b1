import StridedTensor.Proofs.Index
import StridedTensor.Proofs.Result
import StridedTensor.Proofs.Word
import StridedTensor.Tensor.Basic

/-!
# Addresses

Where the elements of a tensor lie. `Tensor.place` is the place of an element in the natural numbers; the
computations in 64 bits agree with it wherever they have a result.

* The span of a tensor with elements reaches from the first element to the end of the last one
  (`span_eq_ok_of_pos`), and every element lies inside it (`place_mem_span`).
* If there is a span, then every element has an offset (`elementOffset_of_span`), and the walk over the elements
  meets their places in row-major order (`offsets_of_span`). The invariant of the walk is that the index and the
  offset that it carries belong to one position (`next?_digits`).
-/

namespace StridedTensor

namespace Layout

/-- The distance of the element at `index` from the first, in the natural numbers. -/
def distance (axes : List Axis) (index : List Nat) : Nat :=
  ((index.zip axes).map fun (i, _, stride) => i * stride).sum

/-- The distance of the last element from the first, in the natural numbers. -/
def lastDistance (axes : List Axis) : Nat := (axes.map fun (extent, stride) => (extent - 1) * stride).sum

theorem distance?_eq_some {axes : List Axis} {index : List Nat} {d : Nat} :
    distance? axes index = some d ↔ distance axes index < Word.limit ∧ d = distance axes index := by
  have h := Word.foldlM_eq_some (fun sum (x : Nat × Axis) d => Word.mul?_add?_eq_some (m := x.1) (n := x.2.2))
    (index.zip axes) (d := d) (show 0 < Word.limit by decide)
  rwa [Nat.zero_add] at h

private theorem lastDistance?_eq_some {axes : List Axis} {d : Nat} :
    lastDistance? axes = some d ↔ lastDistance axes < Word.limit ∧ d = lastDistance axes := by
  have hstep : ∀ (sum : Nat) (x : Axis) (d : Nat),
      ((Word.mul? (x.1 - 1) x.2).bind fun p => Word.add? p sum) = some d ↔
        sum + (x.1 - 1) * x.2 < Word.limit ∧ d = sum + (x.1 - 1) * x.2 := by
    intro sum x d
    simp only [Word.add?, Nat.add_comm _ sum]
    exact Word.mul?_add?_eq_some
  have h := Word.foldlM_eq_some hstep axes (d := d) (show 0 < Word.limit by decide)
  rwa [Nat.zero_add] at h

@[simp] theorem distance_nil (index : List Nat) : distance [] index = 0 := by simp [distance]

@[simp] theorem distance_cons (a : Axis) (axes : List Axis) (i : Nat) (index : List Nat) :
    distance (a :: axes) (i :: index) = i * a.2 + distance axes index := by simp [distance]

@[simp] theorem lastDistance_nil : lastDistance [] = 0 := rfl

@[simp] theorem lastDistance_cons (a : Axis) (axes : List Axis) :
    lastDistance (a :: axes) = (a.1 - 1) * a.2 + lastDistance axes := by simp [lastDistance]

theorem map_fst_axes (l : Layout) : l.axes.map Prod.fst = l.shape.toList :=
  List.map_fst_zip (by simp [l.same_rank])

theorem map_snd_axes (l : Layout) : l.axes.map Prod.snd = l.strides.toList :=
  List.map_snd_zip (by simp [l.same_rank])

theorem map_fst_axes_reverse (l : Layout) : l.axes.reverse.map Prod.fst = l.shape.toList.reverse := by
  rw [List.map_reverse, map_fst_axes]

theorem length_axes (l : Layout) : l.axes.length = l.rank := by
  simp [axes, l.same_rank, rank]

/-- No element is farther from the first than the last one. -/
private theorem distance_le {axes : List Axis} {index : List Nat} (h : List.Forall₂ (· < ·) index (axes.map Prod.fst)) :
    distance axes index ≤ lastDistance axes := by
  induction axes generalizing index with
  | nil => simp
  | cons a axes ih =>
    cases h with
    | @cons i _ index _ hi ht =>
      have h1 : i * a.2 ≤ (a.1 - 1) * a.2 := Nat.mul_le_mul_right _ (by omega)
      have h2 := ih ht
      rw [distance_cons, lastDistance_cons]
      omega

theorem distance_replicate_zero (axes : List Axis) (n : Nat) : distance axes (List.replicate n 0) = 0 := by
  induction axes generalizing n with
  | nil => simp
  | cons a axes ih =>
    cases n with
    | zero => simp [distance]
    | succ n => simp [List.replicate_succ, ih]

/-- The last element is at the largest index. -/
theorem distance_last (axes : List Axis) : distance axes ((axes.map Prod.fst).map (· - 1)) = lastDistance axes := by
  induction axes with
  | nil => simp
  | cons a axes ih => rw [List.map_cons, List.map_cons, distance_cons, lastDistance_cons, ih]

theorem distance_reverse {axes : List Axis} {index : List Nat} (h : index.length = axes.length) :
    distance axes.reverse index.reverse = distance axes index := by
  unfold distance
  rw [List.zip_eq_zipWith, List.zip_eq_zipWith, ← List.reverse_zipWith h, List.map_reverse, List.sum_reverse]

/-- The order in which the axes are listed does not matter for the distance of the last element. -/
theorem lastDistance_perm {axes axes' : List Axis} (h : axes'.Perm axes) : lastDistance axes' = lastDistance axes :=
  (h.map _).sum_nat

private theorem lastDistance_reverse (axes : List Axis) : lastDistance axes.reverse = lastDistance axes :=
  lastDistance_perm (List.reverse_perm axes)

/-- A walk that lists the dimensions from the last one meets the elements where they lie in row-major order. -/
private theorem distance_digits (l : Layout) (k : Nat) :
    distance l.axes.reverse (Shape.digits l.shape.toList.reverse k) =
      distance l.axes (Shape.indexAt l.shape.toList k) := by
  rw [← Shape.reverse_digits, ← distance_reverse (by simp [length_axes, rank]), List.reverse_reverse]

theorem inBounds_iff {l : Layout} {index : List Nat} :
    l.inBounds index = true ↔ List.Forall₂ (· < ·) index l.shape.toList := by
  rw [List.forall₂_iff_zip]
  simp [inBounds, rank]

/-! ### The walk -/

private theorem succ_mod_div_of_lt {k n : Nat} (h : k % n + 1 < n) : (k + 1) % n = k % n + 1 ∧ (k + 1) / n = k / n := by
  have e : k + 1 = n * (k / n) + (k % n + 1) := by
    have := Nat.div_add_mod k n
    omega
  constructor
  · rw [e, Nat.mul_add_mod, Nat.mod_eq_of_lt h]
  · rw [e, Nat.mul_add_div (by omega), Nat.div_eq_of_lt h, Nat.add_zero]

private theorem succ_mod_div_of_eq {k n : Nat} (hn : 0 < n) (h : k % n + 1 = n) :
    (k + 1) % n = 0 ∧ (k + 1) / n = k / n + 1 := by
  have e : k + 1 = n * (k / n + 1) := by
    have := Nat.div_add_mod k n
    rw [Nat.mul_succ]
    omega
  constructor
  · rw [e, Nat.mul_mod_right]
  · rw [e, Nat.mul_div_cancel_left _ hn]

/-- One step of the walk: from the index and offset of one position to those of the next. After the last position
the digits are those of the first, since `digits` counts modulo the number of elements. -/
theorem next?_digits {axes : List Axis} (base : Nat) (hpos : 0 < (axes.map Prod.fst).prod)
    (hb : base + lastDistance axes < Word.limit) (k : Nat) :
    next? axes (Shape.digits (axes.map Prod.fst) k)
        (base + distance axes (Shape.digits (axes.map Prod.fst) k)) =
      some (Shape.digits (axes.map Prod.fst) (k + 1),
        base + distance axes (Shape.digits (axes.map Prod.fst) (k + 1))) := by
  induction axes generalizing base k with
  | nil => rfl
  | cons a axes ih =>
    obtain ⟨n, s⟩ := a
    simp only [List.map_cons, List.prod_cons] at hpos
    simp only [lastDistance_cons] at hb
    have hn : 0 < n := Nat.pos_of_mul_pos_right hpos
    have hns : 0 < (axes.map Prod.fst).prod := Nat.pos_of_mul_pos_left hpos
    have hmod := Nat.mod_lt k hn
    have hi : k % n * s ≤ (n - 1) * s := Nat.mul_le_mul_right _ (by omega)
    have hle := distance_le (Shape.digits_below hns (k / n))
    have hrec := ih base hns (by omega) (k / n)
    simp only [List.map_cons, Shape.digits, distance_cons]
    generalize hdist : distance axes (Shape.digits (axes.map Prod.fst) (k / n)) = d at hle hrec ⊢
    rw [next?]
    by_cases hstep : k % n + 1 < n
    · -- the digit has not come to its end, and the digits after it stay
      obtain ⟨hm, hd⟩ := succ_mod_div_of_lt hstep
      have hs : (k % n + 1) * s ≤ (n - 1) * s := Nat.mul_le_mul_right _ (by omega)
      rw [Nat.succ_mul] at hs
      have hadd : Word.add? (base + (k % n * s + d)) s = some (base + ((k % n + 1) * s + d)) :=
        Word.add?_eq_some.2 ⟨by omega, by rw [Nat.succ_mul]; omega⟩
      rw [if_pos hstep, hm, hd, hadd, hdist]
      rfl
    · -- the digit starts again, and the step is one of the digits after it
      obtain ⟨hm, hd⟩ := succ_mod_div_of_eq hn (show k % n + 1 = n by omega)
      have hmul : Word.mul? (k % n) s = some (k % n * s) := Word.mul?_eq_some.2 ⟨by omega, rfl⟩
      have hsub : Word.sub? (base + (k % n * s + d)) (k % n * s) = some (base + d) :=
        Word.sub?_eq_some.2 ⟨by omega, by omega⟩
      rw [if_neg hstep, hmul, hm, hd]
      simp only [Option.bind_eq_bind, Option.bind_some, hsub, hrec, Nat.zero_mul, Nat.zero_add]
      rfl

private theorem walk?_digits (axes : List Axis) (base : Nat) (hpos : 0 < (axes.map Prod.fst).prod)
    (hb : base + lastDistance axes < Word.limit) (count k : Nat) :
    walk? axes count (Shape.digits (axes.map Prod.fst) k)
        (base + distance axes (Shape.digits (axes.map Prod.fst) k)) =
      some ((List.range count).map fun j => base + distance axes (Shape.digits (axes.map Prod.fst) (k + j))) := by
  -- by induction on the elements that are left: the walk stands at the digits of `k`, and one step takes it to `k + 1`
  induction count generalizing k with
  | zero => rfl
  | succ count ih =>
    have e : ∀ j, k + 1 + j = k + (j + 1) := by intro j; omega
    rw [walk?, next?_digits base hpos hb, List.range_succ_eq_map]
    simp [ih (k + 1), Function.comp_def, e]

end Layout

namespace Tensor

variable {t : Tensor} {s : Span} {index : List Nat}

/-- The byte at which the element at `index` begins, in the natural numbers. -/
def place (t : Tensor) (index : List Nat) : Nat := t.offset + Layout.distance t.layout.axes index

theorem numel_eq {n : Nat} (h : t.numel = .ok n) : n = t.shape.toList.prod :=
  Word.product?_eq (Result.ofWord?_eq_ok.1 h)

theorem numel_of_pos (h0 : 0 < t.shape.toList.prod) (h : t.shape.toList.prod < Word.limit) :
    t.numel = .ok t.shape.toList.prod :=
  Result.ofWord?_eq_ok.2 (Word.product?_of_pos h0 h)

/-! ### The span -/

theorem numel_of_span (h : t.span = .ok s) : ∃ n, t.numel = .ok n := by
  unfold span at h
  obtain ⟨n, hn, -⟩ := Result.bind_eq_ok.1 h
  exact ⟨n, hn⟩

theorem span_of_empty (h : t.numel = .ok 0) : t.span = .ok ⟨t.offset, t.offset⟩ := by
  unfold span
  rw [h]
  rfl

/-- The span of a tensor with elements ends with the last of them, if that end is in range. -/
theorem span_eq_ok_of_pos {n : Nat} (hn : t.numel = .ok n) (h0 : 0 < n) :
    t.span = .ok s ↔ t.offset + Layout.lastDistance t.layout.axes + t.type.size < Word.limit ∧
      s = ⟨t.offset, t.offset + Layout.lastDistance t.layout.axes + t.type.size⟩ := by
  unfold span
  rw [hn, Result.ok_bind, if_neg (by omega)]
  simp only [Result.bind_eq_ok, Result.ofSpanEnd?_eq_ok, Layout.lastDistance?_eq_some, Word.add?_eq_some,
    Result.pure_eq_ok]
  constructor
  · rintro ⟨d, ⟨-, rfl⟩, start, ⟨-, rfl⟩, stop, ⟨h, rfl⟩, rfl⟩
    exact ⟨h, rfl⟩
  · rintro ⟨h, rfl⟩
    exact ⟨_, ⟨by omega, rfl⟩, _, ⟨by omega, rfl⟩, _, ⟨h, rfl⟩, rfl⟩

theorem span_start (h : t.span = .ok s) : s.start = t.offset := by
  obtain ⟨n, hn⟩ := numel_of_span h
  rcases Nat.eq_zero_or_pos n with rfl | h0
  · rw [span_of_empty hn] at h
    cases h; rfl
  · obtain ⟨-, rfl⟩ := (span_eq_ok_of_pos hn h0).1 h
    rfl

theorem span_le (h : t.span = .ok s) : s.start ≤ s.stop := by
  obtain ⟨n, hn⟩ := numel_of_span h
  rcases Nat.eq_zero_or_pos n with rfl | h0
  · rw [span_of_empty hn] at h
    cases h
    exact Nat.le_refl _
  · obtain ⟨-, rfl⟩ := (span_eq_ok_of_pos hn h0).1 h
    simp only
    omega

/-- A tensor with an index has elements, so its span ends with the last one. -/
theorem span_of_below (h : t.span = .ok s) (hi : List.Forall₂ (· < ·) index t.shape.toList) :
    t.offset + Layout.lastDistance t.layout.axes + t.type.size < Word.limit ∧
      s = ⟨t.offset, t.offset + Layout.lastDistance t.layout.axes + t.type.size⟩ := by
  obtain ⟨n, hn⟩ := numel_of_span h
  have h0 : 0 < n := by
    rw [numel_eq hn]; exact Shape.prod_pos_of_below hi
  exact (span_eq_ok_of_pos hn h0).1 h

private theorem distance_le_last (hi : List.Forall₂ (· < ·) index t.shape.toList) :
    Layout.distance t.layout.axes index ≤ Layout.lastDistance t.layout.axes := by
  apply Layout.distance_le
  rw [Layout.map_fst_axes]
  exact hi

theorem place_mem_span (h : t.span = .ok s) (hi : List.Forall₂ (· < ·) index t.shape.toList) :
    s.start ≤ t.place index ∧ t.place index + t.type.size ≤ s.stop := by
  obtain ⟨-, rfl⟩ := span_of_below h hi
  have := distance_le_last hi
  constructor
  · exact Nat.le_add_right _ _
  · show t.offset + Layout.distance t.layout.axes index + t.type.size ≤
      t.offset + Layout.lastDistance t.layout.axes + t.type.size
    omega

/-! ### Offsets -/

theorem elementOffset_eq_ok {o : Nat} :
    t.elementOffset index = .ok o ↔
      List.Forall₂ (· < ·) index t.shape.toList ∧ t.place index < Word.limit ∧ o = t.place index := by
  unfold elementOffset
  by_cases hi : t.layout.inBounds index = true
  · have hb := Layout.inBounds_iff.1 hi
    simp only [hi, Bool.not_true, Bool.false_eq_true, if_false, Result.bind_eq_ok, Result.ofWord?_eq_ok,
      Layout.distance?_eq_some, Word.add?_eq_some]
    constructor
    · rintro ⟨d, ⟨-, rfl⟩, h, rfl⟩
      exact ⟨hb, h, rfl⟩
    · rintro ⟨-, h, rfl⟩
      exact ⟨_, ⟨Nat.lt_of_le_of_lt (Nat.le_add_left _ _) h, rfl⟩, h, rfl⟩
  · simp only [hi, Bool.not_false, if_true, Result.reject_ne_ok, false_iff]
    rintro ⟨hb, -⟩
    exact hi (Layout.inBounds_iff.2 hb)

theorem elementOffset_of_not_below (hi : ¬ List.Forall₂ (· < ·) index t.shape.toList) :
    t.elementOffset index = Result.reject (.index index t.shape) := by
  have hb : t.layout.inBounds index = false := by
    rw [← Bool.not_eq_true]
    exact fun h => hi (Layout.inBounds_iff.1 h)
  unfold elementOffset
  rw [hb]
  rfl

theorem elementOffset_of_span (h : t.span = .ok s) (hi : List.Forall₂ (· < ·) index t.shape.toList) :
    t.elementOffset index = .ok (t.place index) := by
  obtain ⟨hlt, rfl⟩ := span_of_below h hi
  have := (place_mem_span h hi).2
  have hs := t.type.size_pos
  exact elementOffset_eq_ok.2 ⟨hi, by simp only at this; omega, rfl⟩

/-- If there is a span, the walk meets every element in row-major order. -/
theorem offsets_of_span (h : t.span = .ok s) :
    t.offsets = .ok ((List.range t.shape.toList.prod).map fun k => t.place (Shape.indexAt t.shape.toList k)) := by
  obtain ⟨n, hn⟩ := numel_of_span h
  obtain rfl := numel_eq hn
  unfold offsets
  rw [hn, Result.ok_bind, Result.ofWord?_eq_ok]
  rcases Nat.eq_zero_or_pos t.shape.toList.prod with h0 | h0
  · rw [h0]; rfl
  · obtain ⟨hlt, -⟩ := (span_eq_ok_of_pos hn h0).1 h
    have hw := Layout.walk?_digits t.layout.axes.reverse t.offset
      (by rw [Layout.map_fst_axes_reverse, List.prod_reverse]; exact h0) (by rw [Layout.lastDistance_reverse]; omega)
      t.shape.toList.prod 0
    have hz : Shape.digits t.layout.shape.toList.reverse 0 = List.replicate t.rank 0 := by
      rw [Shape.digits_zero, List.length_reverse, Dims.length_toList]; rfl
    rw [Layout.map_fst_axes_reverse, hz, Layout.distance_replicate_zero, Nat.add_zero] at hw
    rw [hw]
    simp only [Nat.zero_add, Layout.distance_digits]
    rfl

theorem mem_offsets {offsets : List Nat} {o : Nat} (h : t.span = .ok s) (ho : t.offsets = .ok offsets) :
    o ∈ offsets ↔ ∃ index, List.Forall₂ (· < ·) index t.shape.toList ∧ o = t.place index := by
  rw [offsets_of_span h] at ho
  cases ho
  rw [List.mem_map]
  constructor
  · rintro ⟨k, hk, rfl⟩
    exact ⟨_, Shape.indexAt_below (Nat.lt_of_le_of_lt (Nat.zero_le _) (List.mem_range.1 hk)) k, rfl⟩
  · rintro ⟨index, hi, rfl⟩
    exact ⟨_, List.mem_range.2 (Shape.position_lt hi), by rw [Shape.indexAt_position hi]⟩

end Tensor

end StridedTensor
