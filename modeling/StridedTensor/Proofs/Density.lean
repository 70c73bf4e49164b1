import Mathlib.Tactic.Ring
import StridedTensor.Proofs.Address

/-!
# Dense layouts

A tensor that the test for contiguity accepts lists its elements without gaps: an element begins as many sizes after
the first one as its position in row-major order tells (`place_eq_position`), so its span is as long as its elements
together (`span_of_isPacked`). The canonical layout of a shape has the same distances (`distance_canonical`), and it is
there unless a stride leaves 64 bits (`canonical_isOk_iff`). The same holds of the column-major layout and order
(`columnMajor_isOk_iff`).
-/

namespace StridedTensor

theorem ElementType.size_lt_limit (t : ElementType) : t.size < Word.limit := by
  cases t <;> decide

namespace Layout

/-- Along packed axes, listed from the one that moves fastest, the distance of an element is its position. -/
theorem distance_of_packed {stride : Nat} {axes : List Axis} {index : List Nat} (h : packed? stride axes = some true)
    (hi : List.Forall₂ (· < ·) index (axes.map Prod.fst)) :
    distance axes index = stride * Shape.columnPosition (axes.map Prod.fst) index := by
  induction axes generalizing stride index with
  | nil => simp
  | cons a axes ih =>
    obtain ⟨n, s⟩ := a
    cases hi with
    | @cons i _ index _ hlt hrest =>
      rw [packed?] at h
      rw [List.map_cons, Shape.columnPosition, distance_cons]
      by_cases h1 : n = 1
      · -- the index along an axis of extent one is zero
        subst h1
        obtain rfl : i = 0 := by simpa using hlt
        rw [if_pos rfl] at h
        rw [ih h hrest]
        ring
      · by_cases hs : s = stride
        · subst hs
          rw [if_neg h1, if_neg (by simp), Option.bind_eq_bind, Option.bind_eq_some_iff] at h
          obtain ⟨m, hm, h⟩ := h
          obtain ⟨-, rfl⟩ := Word.mul?_eq_some.1 hm
          rw [ih h hrest]
          ring
        · simp [h1, hs] at h

/-- With the dimensions listed backwards, elements are as far from the first one as before, and column-major order is
row-major order. -/
theorem distance_backwards (l : Layout) {index : List Nat} (hi : List.Forall₂ (· < ·) index l.shape.toList) :
    distance l.axes.reverse index.reverse = distance l.axes index ∧
      Shape.columnPosition (l.axes.reverse.map Prod.fst) index.reverse = Shape.position l.shape.toList index := by
  have hlen : index.length = l.shape.toList.length := hi.length_eq
  refine ⟨distance_reverse ?_, ?_⟩
  · rw [hlen, ← map_fst_axes, List.length_map]
  · rw [map_fst_axes_reverse, Shape.columnPosition_reverse hlen]

private theorem lastDistance_of_packed {stride : Nat} {axes : List Axis} (h : packed? stride axes = some true)
    (hpos : 0 < (axes.map Prod.fst).prod) :
    lastDistance axes + stride = stride * (axes.map Prod.fst).prod := by
  induction axes generalizing stride with
  | nil => simp
  | cons a axes ih =>
    obtain ⟨n, s⟩ := a
    simp only [List.map_cons, List.prod_cons] at hpos ⊢
    have hn : 0 < n := Nat.pos_of_mul_pos_right hpos
    have hns : 0 < (axes.map Prod.fst).prod := Nat.pos_of_mul_pos_left hpos
    simp only [lastDistance_cons]
    rw [packed?] at h
    by_cases h1 : n = 1
    · subst h1
      rw [if_pos rfl] at h
      have := ih h hns
      simpa using this
    · by_cases hs : s = stride
      · subst hs
        rw [if_neg h1, if_neg (by simp), Option.bind_eq_bind, Option.bind_eq_some_iff] at h
        obtain ⟨m, hm, h⟩ := h
        obtain ⟨-, rfl⟩ := Word.mul?_eq_some.1 hm
        have hrec := ih h hns
        obtain ⟨m, rfl⟩ : ∃ m, n = m + 1 := ⟨n - 1, by omega⟩
        calc (m + 1 - 1) * s + lastDistance axes + s
            = lastDistance axes + s * (m + 1) := by rw [Nat.add_sub_cancel]; ring
          _ = s * ((m + 1) * (axes.map Prod.fst).prod) := by rw [hrec]; ring
      · simp [h1, hs] at h

/-- If there are elements and their bytes can be counted, then the test for packed axes comes to an end. -/
private theorem packed?_of_pos {stride : Nat} {axes : List Axis} (hpos : 0 < (axes.map Prod.fst).prod)
    (hfit : stride * (axes.map Prod.fst).prod < Word.limit) : ∃ b, packed? stride axes = some b := by
  induction axes generalizing stride with
  | nil => exact ⟨true, rfl⟩
  | cons a axes ih =>
    obtain ⟨n, s⟩ := a
    simp only [List.map_cons, List.prod_cons] at hpos hfit
    have hns : 0 < (axes.map Prod.fst).prod := Nat.pos_of_mul_pos_left hpos
    rw [packed?]
    by_cases h1 : n = 1
    · rw [if_pos h1]
      exact ih hns (by rw [h1, Nat.one_mul] at hfit; exact hfit)
    · rw [if_neg h1]
      by_cases hs : s = stride
      · rw [← Nat.mul_assoc] at hfit
        have hmul : Word.mul? stride n = some (stride * n) :=
          Word.mul?_eq_some.2 ⟨(Nat.le_mul_of_pos_right _ hns).trans_lt hfit, rfl⟩
        rw [if_neg (by simpa using hs), hmul]
        exact ih hns hfit
      · rw [if_pos hs]
        exact ⟨false, rfl⟩

/-! ### The canonical layout -/

private theorem toList_strides {s : Shape} {entries : List Nat} (h : entries.length = s.rank) :
    (s.strides entries).toList = entries := by
  unfold Shape.strides
  rw [Dims.toList_build]
  apply List.ext_getElem
  · simp [h]
  · intro i hi hx
    simp [hx]

theorem axes_ofEntries {s : Shape} {entries : List Nat} (h : entries.length = s.rank) :
    (ofEntries s entries).axes = s.toList.zip entries := by
  unfold axes ofEntries
  rw [toList_strides h]

theorem rowMajor?_eq {size : Nat} {ns entries : List Nat} {stride : Nat}
    (h : Shape.rowMajor? size ns = some (entries, stride)) :
    entries.length = ns.length ∧ stride = size * ns.prod ∧
      ∀ index, List.Forall₂ (· < ·) index ns → distance (ns.zip entries) index = size * Shape.position ns index := by
  induction ns generalizing entries stride with
  | nil =>
    cases h
    refine ⟨rfl, by simp, ?_⟩
    rintro _ ⟨⟩
    rfl
  | cons n ns ih =>
    simp only [Shape.rowMajor?, Option.bind_eq_bind, Option.bind_eq_some_iff, Prod.exists, Option.pure_def,
      Option.some.injEq, Prod.mk.injEq] at h
    obtain ⟨strides, stride', hrec, m, hm, rfl, rfl⟩ := h
    obtain ⟨-, rfl⟩ := Word.mul?_eq_some.1 hm
    obtain ⟨hlen, rfl, hdist⟩ := ih hrec
    refine ⟨by simp [hlen], by rw [List.prod_cons]; ring, ?_⟩
    rintro _ (_ | ⟨hi, ht⟩)
    rename_i i index
    rw [List.zip_cons_cons, distance_cons, hdist index ht, Shape.position]
    ring

/-- If there are elements, then no stride is zero, and the last element ends where the next dimension would begin. -/
private theorem rowMajor?_of_pos {size : Nat} {ns entries : List Nat} {stride : Nat} (hsize : 0 < size)
    (h : Shape.rowMajor? size ns = some (entries, stride)) (hpos : 0 < ns.prod) :
    (∀ e ∈ entries, 0 < e) ∧ lastDistance (ns.zip entries) + size = size * ns.prod := by
  induction ns generalizing entries stride with
  | nil =>
    cases h
    simp
  | cons n ns ih =>
    simp only [Shape.rowMajor?, Option.bind_eq_bind, Option.bind_eq_some_iff, Prod.exists, Option.pure_def,
      Option.some.injEq, Prod.mk.injEq] at h
    obtain ⟨strides, stride', hrec, m, -, rfl, -⟩ := h
    obtain ⟨-, rfl, -⟩ := rowMajor?_eq hrec
    rw [List.prod_cons] at hpos
    have hn : 0 < n := Nat.pos_of_mul_pos_right hpos
    have hns : 0 < ns.prod := Nat.pos_of_mul_pos_left hpos
    obtain ⟨hstrides, hlast⟩ := ih hrec hns
    refine ⟨fun e he => ?_, ?_⟩
    · rcases List.mem_cons.1 he with rfl | he
      · exact Nat.mul_pos hsize hns
      · exact hstrides e he
    · obtain ⟨m, rfl⟩ : ∃ m, n = m + 1 := ⟨n - 1, by omega⟩
      rw [List.zip_cons_cons, lastDistance_cons, List.prod_cons, Nat.add_assoc, hlast]
      simp only [Nat.add_sub_cancel]
      ring

/-- The strides of the canonical layout are the bytes of the dimensions behind each dimension, and so is the stride that
a further dimension in front would have. -/
private theorem exists_rowMajor? {size : Nat} (hsize : size < Word.limit) (ns : List Nat) :
    (∃ entries stride, Shape.rowMajor? size ns = some (entries, stride)) ↔
      ∀ k, size * (ns.drop k).prod < Word.limit := by
  induction ns with
  | nil => simpa [Shape.rowMajor?] using hsize
  | cons n ns ih =>
    have hprod : size * ns.prod * n = size * (n :: ns).prod := by
      rw [List.prod_cons]
      ring
    constructor
    · rintro ⟨entries, stride, h⟩ k
      simp only [Shape.rowMajor?, Option.bind_eq_bind, Option.bind_eq_some_iff, Prod.exists] at h
      obtain ⟨strides, stride', hrec, m, hm, -⟩ := h
      obtain ⟨-, rfl, -⟩ := rowMajor?_eq hrec
      cases k with
      | zero =>
        rw [List.drop_zero, ← hprod]
        exact (Word.mul?_eq_some.1 hm).1
      | succ k => exact ih.1 ⟨_, _, hrec⟩ k
    · intro h
      obtain ⟨strides, stride, hrec⟩ := ih.2 fun k => h (k + 1)
      obtain ⟨-, rfl, -⟩ := rowMajor?_eq hrec
      have hmul : Word.mul? (size * ns.prod) n = some (size * ns.prod * n) :=
        Word.mul?_eq_some.2 ⟨by rw [hprod]; exact h 0, rfl⟩
      refine ⟨size * ns.prod :: strides, size * ns.prod * n, ?_⟩
      simp only [Shape.rowMajor?, hrec, Option.bind_eq_bind, Option.bind_some, hmul]
      rfl

private theorem prod_take_mul_drop (ns : List Nat) (k : Nat) : (ns.take k).prod * (ns.drop k).prod = ns.prod := by
  rw [← List.prod_append, List.take_append_drop]

theorem canonical_isOk_iff (s : Shape) (t : ElementType) :
    (∃ l, canonical s t = .ok l) ↔ ∀ k, t.size * (s.toList.drop k).prod < Word.limit := by
  rw [← exists_rowMajor? t.size_lt_limit]
  unfold canonical
  simp only [Result.bind_eq_ok, Result.ofWord?_eq_ok, Prod.exists, Result.pure_eq_ok]
  constructor
  · rintro ⟨_, entries, stride, h, -⟩
    exact ⟨entries, stride, h⟩
  · rintro ⟨entries, stride, h⟩
    exact ⟨_, entries, stride, h, rfl⟩

/-- In the canonical layout the distance of an element is its position in row-major order. -/
theorem distance_canonical {s : Shape} {t : ElementType} {l : Layout} (h : canonical s t = .ok l) :
    l.shape = s ∧
      ∀ index, List.Forall₂ (· < ·) index s.toList → distance l.axes index = t.size * Shape.position s.toList index := by
  unfold canonical at h
  obtain ⟨⟨entries, stride⟩, hr, h⟩ := Result.bind_eq_ok.1 h
  obtain ⟨hlen, -, hdist⟩ := rowMajor?_eq (Result.ofWord?_eq_ok.1 hr)
  obtain rfl := Result.pure_eq_ok.1 h
  rw [axes_ofEntries (by simpa using hlen)]
  exact ⟨rfl, hdist⟩

theorem canonical_of_pos {s : Shape} {t : ElementType} {l : Layout} (h : canonical s t = .ok l)
    (hpos : 0 < s.toList.prod) :
    (∀ a ∈ l.axes, 0 < a.2) ∧ lastDistance l.axes + t.size = t.size * s.toList.prod := by
  unfold canonical at h
  obtain ⟨⟨entries, stride⟩, hr, h⟩ := Result.bind_eq_ok.1 h
  have hrow := Result.ofWord?_eq_ok.1 hr
  obtain ⟨hlen, -, -⟩ := rowMajor?_eq hrow
  obtain ⟨hstrides, hlast⟩ := rowMajor?_of_pos t.size_pos hrow hpos
  obtain rfl := Result.pure_eq_ok.1 h
  rw [axes_ofEntries (by simpa using hlen)]
  exact ⟨fun a ha => hstrides _ (List.of_mem_zip ha).2, hlast⟩

/-- If there are elements and their bytes can be counted, then the strides of the canonical layout can too. -/
theorem canonical_eq_ok {s : Shape} {t : ElementType} (hpos : 0 < s.toList.prod)
    (hfit : t.size * s.toList.prod < Word.limit) : ∃ l, canonical s t = .ok l := by
  refine (canonical_isOk_iff s t).2 fun k => ?_
  have hle : (s.toList.drop k).prod ≤ s.toList.prod := Nat.le_of_dvd hpos (Dvd.intro_left _ (prod_take_mul_drop _ k))
  exact (Nat.mul_le_mul_left t.size hle).trans_lt hfit

/-! ### The column-major layout -/

theorem columnMajor?_eq {stride : Nat} {ns entries : List Nat} (h : Shape.columnMajor? stride ns = some entries) :
    entries.length = ns.length ∧ packed? stride (ns.zip entries) = some true := by
  induction ns generalizing stride entries with
  | nil =>
    cases h
    exact ⟨rfl, rfl⟩
  | cons n ns ih =>
    simp only [Shape.columnMajor?, Option.bind_eq_bind, Option.bind_eq_some_iff, Option.pure_def,
      Option.some.injEq] at h
    obtain ⟨next, hnext, rest, hrec, rfl⟩ := h
    obtain ⟨hlen, hpacked⟩ := ih hrec
    refine ⟨by simp [hlen], ?_⟩
    rw [List.zip_cons_cons, packed?]
    by_cases h1 : n = 1
    · obtain ⟨-, rfl⟩ := Word.mul?_eq_some.1 hnext
      rw [h1, Nat.mul_one] at hpacked
      rwa [if_pos h1]
    · rw [if_neg h1, if_neg (by simp), hnext]
      exact hpacked

private theorem exists_columnMajor? {stride : Nat} (hstride : stride < Word.limit) (ns : List Nat) :
    (∃ entries, Shape.columnMajor? stride ns = some entries) ↔ ∀ k, stride * (ns.take k).prod < Word.limit := by
  induction ns generalizing stride with
  | nil => simpa [Shape.columnMajor?] using hstride
  | cons n ns ih =>
    have hprod : ∀ k, stride * n * (ns.take k).prod = stride * ((n :: ns).take (k + 1)).prod := by
      intro k
      rw [List.take_succ_cons, List.prod_cons]
      ring
    simp only [Shape.columnMajor?, Option.bind_eq_bind, Option.bind_eq_some_iff, Option.pure_def, Option.some.injEq]
    constructor
    · rintro ⟨entries, next, hnext, rest, hrec, -⟩ k
      obtain ⟨hlt, rfl⟩ := Word.mul?_eq_some.1 hnext
      cases k with
      | zero => simpa using hstride
      | succ k =>
        rw [← hprod]
        exact (ih hlt).1 ⟨rest, hrec⟩ k
    · intro h
      have hlt : stride * n < Word.limit := by simpa using h 1
      obtain ⟨rest, hrec⟩ := (ih hlt).2 fun k => by rw [hprod]; exact h (k + 1)
      exact ⟨stride :: rest, _, Word.mul?_eq_some.2 ⟨hlt, rfl⟩, rest, hrec, rfl⟩

theorem columnMajor_isOk_iff (s : Shape) (t : ElementType) :
    (∃ l, columnMajor s t = .ok l) ↔ ∀ k, t.size * (s.toList.take k).prod < Word.limit := by
  rw [← exists_columnMajor? t.size_lt_limit]
  unfold columnMajor
  simp only [Result.bind_eq_ok, Result.ofWord?_eq_ok, Result.pure_eq_ok]
  constructor
  · rintro ⟨_, entries, h, -⟩
    exact ⟨entries, h⟩
  · rintro ⟨entries, h⟩
    exact ⟨_, entries, h, rfl⟩

theorem columnMajor_eq_ok {s : Shape} {t : ElementType} (hpos : 0 < s.toList.prod)
    (hfit : t.size * s.toList.prod < Word.limit) : ∃ l, columnMajor s t = .ok l := by
  refine (columnMajor_isOk_iff s t).2 fun k => ?_
  have hle : (s.toList.take k).prod ≤ s.toList.prod := Nat.le_of_dvd hpos (Dvd.intro _ (prod_take_mul_drop _ k))
  exact (Nat.mul_le_mul_left t.size hle).trans_lt hfit

end Layout

namespace Tensor

variable {t : Tensor}

private theorem packed_of_isPacked {order : List Axis} (h : t.layout.isPacked t.type order = .ok true)
    (hpos : 0 < t.shape.toList.prod) :
    Layout.packed? t.type.size order = some true := by
  unfold Layout.isPacked at h
  obtain ⟨n, hn, h⟩ := Result.bind_eq_ok.1 h
  obtain rfl := numel_eq hn
  rw [if_neg (Nat.ne_of_gt hpos)] at h
  exact Result.ofWord?_eq_ok.1 h

/-- The test for contiguity comes to an end if the bytes of the elements can be counted. -/
theorem isContiguous_of_nbytes {n : Nat} (h : t.nbytes = .ok n) : ∃ b, t.isContiguous = .ok b := by
  obtain ⟨m, hm, hn⟩ := Result.bind_eq_ok.1 h
  obtain ⟨hfit, -⟩ := Word.mul?_eq_some.1 (Result.ofWord?_eq_ok.1 hn)
  have hprod := numel_eq hm
  unfold isContiguous Layout.isContiguous Layout.isPacked
  rw [show t.layout.shape.numel = .ok m from hm, Result.ok_bind]
  by_cases h0 : m = 0
  · rw [if_pos h0]
    exact ⟨true, rfl⟩
  · rw [if_neg h0]
    have haxes : (t.layout.axes.reverse.map Prod.fst).prod = m := by
      rw [Layout.map_fst_axes_reverse, List.prod_reverse]
      exact hprod.symm
    obtain ⟨b, hb⟩ := Layout.packed?_of_pos (haxes ▸ Nat.pos_of_ne_zero h0)
      (by rw [haxes, Nat.mul_comm]; exact hfit)
    exact ⟨b, by rw [hb]; rfl⟩

/-- The elements of a contiguous tensor follow one another in row-major order. -/
theorem place_eq_position (h : t.isContiguous = .ok true) {index : List Nat}
    (hi : List.Forall₂ (· < ·) index t.shape.toList) :
    t.place index = t.offset + t.type.size * Shape.position t.shape.toList index := by
  have hp := packed_of_isPacked h (Shape.prod_pos_of_below hi)
  have hbackwards : List.Forall₂ (· < ·) index.reverse (t.layout.axes.reverse.map Prod.fst) := by
    rw [Layout.map_fst_axes_reverse]
    exact List.forall₂_reverse_iff.2 hi
  have hd := Layout.distance_of_packed hp hbackwards
  obtain ⟨hdistance, hposition⟩ := t.layout.distance_backwards hi
  rw [hdistance, hposition] at hd
  rw [place, hd]
  rfl

theorem place_of_isContiguous (h : t.isContiguous = .ok true) {k : Nat} (hk : k < t.shape.toList.prod) :
    t.place (Shape.indexAt t.shape.toList k) = t.offset + t.type.size * k := by
  rw [place_eq_position h (Shape.indexAt_below (Nat.lt_of_le_of_lt (Nat.zero_le k) hk) k), Shape.position_indexAt hk]

/-- In whatever order the axes are packed, the elements fill the span. -/
theorem span_of_isPacked {order : List Axis} (horder : order.Perm t.layout.axes)
    (h : t.layout.isPacked t.type order = .ok true) {s : Span} (hs : t.span = .ok s) :
    s = ⟨t.offset, t.offset + t.type.size * t.shape.toList.prod⟩ := by
  obtain ⟨n, hn⟩ := numel_of_span hs
  obtain rfl := numel_eq hn
  rcases Nat.eq_zero_or_pos t.shape.toList.prod with h0 | h0
  · rw [h0] at hn ⊢
    rw [span_of_empty hn] at hs
    cases hs
    rfl
  · obtain ⟨-, rfl⟩ := (span_eq_ok_of_pos hn h0).1 hs
    have hprod : (order.map Prod.fst).prod = t.shape.toList.prod := by
      rw [(horder.map Prod.fst).prod_nat, Layout.map_fst_axes]
      rfl
    have hl := Layout.lastDistance_of_packed (packed_of_isPacked h h0) (by rwa [hprod])
    rw [hprod, Layout.lastDistance_perm horder] at hl
    rw [Nat.add_assoc, hl]

theorem span_of_isContiguous (h : t.isContiguous = .ok true) {s : Span} (hs : t.span = .ok s) :
    s = ⟨t.offset, t.offset + t.type.size * t.shape.toList.prod⟩ :=
  span_of_isPacked (List.reverse_perm _) h hs

end Tensor

end StridedTensor
