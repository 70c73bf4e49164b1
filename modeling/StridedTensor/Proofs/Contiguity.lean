import StridedTensor.Proofs.Axes
import StridedTensor.Tensor.View

/-!
# The tests for density

A tensor with elements and a span is contiguous exactly if each element lies at its position in row-major order
(`Tensor.isContiguous_iff`), and column-major exactly if each lies at its position in column-major order
(`Tensor.isColumnMajor_iff`). Neither test leaves 64 bits, because the stride that it expects next is never longer than
the span (`Layout.packed?_of_lastDistance`). The dense layouts of a shape pass the tests (`isContiguous_of_canonical`,
`isColumnMajor_of_columnMajor`).

Shapes without elements are the exception: their bytes can be counted, but a stride is the product of other extents than
the one that is zero, and may leave 64 bits (`vastColumns_halts`).
-/

namespace StridedTensor

namespace Layout

variable {axes : List Axis} {stride : Nat}

/-! ### Packed axes -/

/-- If there are elements and the last one ends in range, then the test for packed axes comes to an end. It succeeds if
the distance of each element is its position: the first neighbours along an axis tell its stride, and the elements at its
start tell the strides of the other axes. -/
theorem packed?_of_lastDistance (hpos : 0 < (axes.map Prod.fst).prod) (hfit : lastDistance axes + stride < Word.limit) :
    ∃ b, packed? stride axes = some b ∧
      ((∀ index, Below axes index → distance axes index = stride * Shape.columnPosition (axes.map Prod.fst) index) →
        b = true) := by
  induction axes generalizing stride with
  | nil => exact ⟨true, rfl, fun _ => rfl⟩
  | cons a axes ih =>
    obtain ⟨n, s⟩ := a
    simp only [List.map_cons, List.prod_cons] at hpos
    have hn : 0 < n := Nat.pos_of_mul_pos_right hpos
    have hns : 0 < (axes.map Prod.fst).prod := Nat.pos_of_mul_pos_left hpos
    rw [lastDistance_cons] at hfit
    rw [packed?]
    by_cases h1 : n = 1
    · subst h1
      have hrest : lastDistance axes + stride < Word.limit := by omega
      obtain ⟨b, hb, htrue⟩ := ih hns hrest
      refine ⟨b, by rw [if_pos rfl, hb], fun h => htrue fun index hi => ?_⟩
      simpa [Shape.columnPosition] using h (0 :: index) (below_cons.2 ⟨hn, hi⟩)
    · by_cases hs : s = stride
      · -- so far the axes have gone as far as the stride
        subst hs
        obtain ⟨m, rfl⟩ : ∃ m, n = m + 1 := ⟨n - 1, by omega⟩
        have hmul : s * (m + 1) = m * s + s := by rw [Nat.mul_succ, Nat.mul_comm]
        simp only [Nat.add_sub_cancel] at hfit
        have hrest : lastDistance axes + s * (m + 1) < Word.limit := by rw [hmul]; omega
        obtain ⟨b, hb, htrue⟩ := ih hns hrest
        refine ⟨b, ?_, fun h => htrue fun index hi => ?_⟩
        · rw [if_neg h1, if_neg (by simp), Word.mul?_eq_some.2 ⟨by rw [hmul]; omega, rfl⟩]
          exact hb
        · rw [Nat.mul_assoc]
          simpa [Shape.columnPosition] using h (0 :: index) (below_cons.2 ⟨hn, hi⟩)
      · refine ⟨false, by rw [if_neg h1, if_pos hs], fun h => absurd ?_ hs⟩
        have hzeros : Below axes (List.replicate (axes.map Prod.fst).length 0) := Shape.zeros_below hns
        have hone := h (1 :: List.replicate (axes.map Prod.fst).length 0) (below_cons.2 ⟨by simp only; omega, hzeros⟩)
        simpa [Shape.columnPosition, Shape.columnPosition_replicate_zero, distance_replicate_zero] using hone

/-- Axes with elements are packed exactly if the distance of each element is its position. -/
private theorem packed?_iff (hpos : 0 < (axes.map Prod.fst).prod) (hfit : lastDistance axes + stride < Word.limit) :
    packed? stride axes = some true ↔
      ∀ index, Below axes index → distance axes index = stride * Shape.columnPosition (axes.map Prod.fst) index := by
  refine ⟨fun h _ hi => distance_of_packed h hi, fun h => ?_⟩
  obtain ⟨b, hb, htrue⟩ := packed?_of_lastDistance hpos hfit
  rw [hb, htrue h]

/-! ### Dense strides -/

private theorem packed?_append {front back : List Axis} (h : packed? stride front = some true) :
    packed? stride (front ++ back) = packed? (stride * (front.map Prod.fst).prod) back := by
  induction front generalizing stride with
  | nil => simp
  | cons a front ih =>
    rw [packed?] at h
    rw [List.cons_append, packed?, List.map_cons, List.prod_cons]
    by_cases h1 : a.1 = 1
    · rw [if_pos h1] at h ⊢
      rw [ih h, h1, Nat.one_mul]
    · by_cases hs : a.2 = stride
      · rw [if_neg h1, if_neg (by simpa using hs), Option.bind_eq_bind, Option.bind_eq_some_iff] at h
        obtain ⟨next, hnext, h⟩ := h
        obtain ⟨-, rfl⟩ := Word.mul?_eq_some.1 hnext
        rw [if_neg h1, if_neg (by simpa using hs), hnext, ← Nat.mul_assoc]
        exact ih h
      · simp [h1, hs] at h

private theorem packed?_of_rowMajor? {size : Nat} {ns entries : List Nat}
    (h : Shape.rowMajor? size ns = some (entries, stride)) :
    packed? size (ns.zip entries).reverse = some true := by
  induction ns generalizing entries stride with
  | nil =>
    cases h
    rfl
  | cons n ns ih =>
    simp only [Shape.rowMajor?, Option.bind_eq_bind, Option.bind_eq_some_iff, Prod.exists, Option.pure_def,
      Option.some.injEq, Prod.mk.injEq] at h
    obtain ⟨strides, next, hrec, m, hm, rfl, -⟩ := h
    obtain ⟨hlen, rfl, -⟩ := rowMajor?_eq hrec
    have hprod : ((ns.zip strides).reverse.map Prod.fst).prod = ns.prod := by
      rw [List.map_reverse, List.prod_reverse, List.map_fst_zip (by omega)]
    rw [List.zip_cons_cons, List.reverse_cons, packed?_append (ih hrec), hprod, packed?]
    by_cases h1 : n = 1
    · rw [if_pos h1]
      rfl
    · rw [if_neg h1, if_neg (by simp), hm]
      rfl

end Layout

/-! ### Tensors -/

namespace Tensor

variable {t : Tensor} {s : Span} {order : List Axis}

theorem prod_of_perm (horder : order.Perm t.layout.axes) : (order.map Prod.fst).prod = t.shape.toList.prod := by
  rw [(horder.map Prod.fst).prod_nat, Layout.map_fst_axes]
  rfl

/-- If there is a span, then the test for density comes to an end, in whatever order it takes the axes. -/
private theorem isPacked_of_span (h : t.span = .ok s) (horder : order.Perm t.layout.axes) :
    ∃ b, t.layout.isPacked t.type order = .ok b := by
  obtain ⟨n, hn⟩ := numel_of_span h
  obtain rfl := numel_eq hn
  unfold Layout.isPacked
  rw [show t.layout.shape.numel = .ok t.shape.toList.prod from hn, Result.ok_bind]
  rcases Nat.eq_zero_or_pos t.shape.toList.prod with h0 | h0
  · rw [if_pos h0]
    exact ⟨true, rfl⟩
  · rw [if_neg (Nat.ne_of_gt h0)]
    obtain ⟨hfit, -⟩ := (span_eq_ok_of_pos hn h0).1 h
    have hlast : Layout.lastDistance order + t.type.size < Word.limit := by
      rw [Layout.lastDistance_perm horder]
      omega
    obtain ⟨b, hb, -⟩ := Layout.packed?_of_lastDistance (by rwa [prod_of_perm horder]) hlast
    exact ⟨b, by rw [hb]; rfl⟩

theorem isContiguous_of_span (h : t.span = .ok s) : ∃ b, t.isContiguous = .ok b :=
  isPacked_of_span h (List.reverse_perm _)

private theorem isColumnMajor_of_span (h : t.span = .ok s) : ∃ b, t.isColumnMajor = .ok b :=
  isPacked_of_span h (List.Perm.refl _)

private theorem isPacked_iff (h : t.span = .ok s) (hpos : 0 < t.shape.toList.prod) (horder : order.Perm t.layout.axes) :
    t.layout.isPacked t.type order = .ok true ↔ ∀ index, Layout.Below order index →
      Layout.distance order index = t.type.size * Shape.columnPosition (order.map Prod.fst) index := by
  obtain ⟨n, hn⟩ := numel_of_span h
  obtain rfl := numel_eq hn
  obtain ⟨hfit, -⟩ := (span_eq_ok_of_pos hn hpos).1 h
  rw [← Layout.packed?_iff (by rwa [prod_of_perm horder]) (by rw [Layout.lastDistance_perm horder]; omega)]
  unfold Layout.isPacked
  rw [show t.layout.shape.numel = .ok t.shape.toList.prod from hn, Result.ok_bind, if_neg (Nat.ne_of_gt hpos),
    Result.ofWord?_eq_ok]

/-- Each element begins as many sizes after the first one as its position tells. -/
def PlacedBy (t : Tensor) (position : List Nat → List Nat → Nat) : Prop :=
  ∀ index, List.Forall₂ (· < ·) index t.shape.toList →
    t.elementOffset index = .ok (t.offset + t.type.size * position t.shape.toList index)

private theorem elementOffset_eq_iff (h : t.span = .ok s) {index : List Nat} (hi : List.Forall₂ (· < ·) index t.shape.toList)
    (d : Nat) : t.elementOffset index = .ok (t.offset + d) ↔ Layout.distance t.layout.axes index = d := by
  rw [elementOffset_of_span h hi, Except.ok.injEq, place, Nat.add_left_cancel_iff]

theorem isColumnMajor_iff (h : t.span = .ok s) (hpos : 0 < t.shape.toList.prod) :
    t.isColumnMajor = .ok true ↔ t.PlacedBy Shape.columnPosition := by
  unfold PlacedBy isColumnMajor Layout.isColumnMajor
  rw [isPacked_iff h hpos (List.Perm.refl _), Layout.map_fst_axes]
  refine forall_congr' fun index => ?_
  unfold Layout.Below
  rw [Layout.map_fst_axes]
  exact forall_congr' fun hi => (elementOffset_eq_iff h hi _).symm

theorem isContiguous_iff (h : t.span = .ok s) (hpos : 0 < t.shape.toList.prod) :
    t.isContiguous = .ok true ↔ t.PlacedBy Shape.position := by
  constructor
  · intro hc index hi
    rw [elementOffset_of_span h hi, place_eq_position hc hi]
  · -- the axes are listed backwards, and so are the indices
    intro hplaced
    refine (isPacked_iff h hpos (List.reverse_perm _)).2 fun index hi => ?_
    unfold Layout.Below at hi
    rw [Layout.map_fst_axes_reverse, ← List.forall₂_reverse_iff, List.reverse_reverse] at hi
    obtain ⟨hdistance, hposition⟩ := t.layout.distance_backwards hi
    rw [List.reverse_reverse] at hdistance hposition
    rw [hdistance, hposition]
    exact (elementOffset_eq_iff h hi _).1 (hplaced index.reverse hi)

/-- Column-major is contiguous with the dimensions in reverse order. -/
theorem isContiguous_permute_reverse (h : t.span = .ok s) (hpos : 0 < t.shape.toList.prod) :
    ∃ v, t.permute (List.range t.rank).reverse = .ok v ∧ v.isContiguous = t.isColumnMajor := by
  obtain ⟨n, hn⟩ := numel_of_span h
  obtain rfl := numel_eq hn
  have hlen : (List.range t.rank).reverse.length = t.rank := by simp
  have hlt : ∀ j ∈ (List.range t.rank).reverse, j < t.rank := fun j hj => List.mem_range.1 (List.mem_reverse.1 hj)
  have haxes := Layout.axes_permute hlen hlt
  have hbackwards : (List.range t.rank).reverse.map (fun j => t.layout.axes.getD j (0, 0)) = t.layout.axes.reverse := by
    rw [List.map_reverse]
    congr 1
    apply List.ext_getElem
    · rw [List.length_map, List.length_range, Layout.length_axes]
      rfl
    · intro i hi hi'
      simp [hi']
  rw [hbackwards] at haxes
  generalize hl : t.layout.gather (fun i => (List.range t.rank).reverse.getD i 0) = l at haxes
  have hshape : l.shape.toList = t.shape.toList.reverse := by
    rw [← Layout.map_fst_axes, haxes, Layout.map_fst_axes_reverse]
    rfl
  refine ⟨t.withLayout l, ?_, ?_⟩
  · have hnodup : (List.range t.rank).reverse.Nodup := (List.reverse_perm _).nodup_iff.2 List.nodup_range
    exact permute_eq_ok.2 ⟨⟨hlen, hlt, hnodup⟩, congrArg t.withLayout hl⟩
  · have hprod : l.shape.toList.prod = t.shape.toList.prod := by rw [hshape, List.prod_reverse]
    have hnumel : l.shape.numel = .ok t.shape.toList.prod := by
      rw [← hprod] at hpos ⊢
      exact numel_of_pos (t := t.withLayout l) hpos
        (by rw [← hprod] at hn; exact Word.product?_lt (Result.ofWord?_eq_ok.1 hn))
    show l.isPacked t.type l.axes.reverse = t.layout.isPacked t.type t.layout.axes
    unfold Layout.isPacked
    rw [haxes, List.reverse_reverse, hnumel, show t.layout.shape.numel = .ok t.shape.toList.prod from hn]

/-- The bytes of a tensor without gaps are those of its span. -/
private theorem nbytes_of_isPacked (h : t.span = .ok s) (hpos : 0 < t.shape.toList.prod)
    (horder : order.Perm t.layout.axes)
    (hpacked : t.layout.isPacked t.type order = .ok true) : t.nbytes = .ok s.length := by
  obtain ⟨n, hn⟩ := numel_of_span h
  obtain rfl := numel_eq hn
  obtain ⟨hfit, hstop⟩ := (span_eq_ok_of_pos hn hpos).1 h
  obtain rfl := span_of_isPacked horder hpacked h
  rw [Span.mk.injEq] at hstop
  have hmul : Word.mul? t.shape.toList.prod t.type.size = some (t.type.size * t.shape.toList.prod) := by
    refine Word.mul?_eq_some.2 ⟨?_, Nat.mul_comm _ _⟩
    rw [Nat.mul_comm]
    omega
  unfold nbytes Shape.byteSize
  rw [show t.shape.numel = .ok t.shape.toList.prod from hn, Result.ok_bind, hmul, Span.length, Nat.add_sub_cancel_left]
  rfl

/-! ### Dense layouts -/

variable {shape : Shape} {type : ElementType} {n : Nat}

private theorem numel_of_byteSize (h : shape.byteSize type = .ok n) :
    shape.numel = .ok shape.toList.prod ∧ type.size * shape.toList.prod < Word.limit := by
  obtain ⟨m, hm, h⟩ := Result.bind_eq_ok.1 h
  obtain ⟨hlt, -⟩ := Word.mul?_eq_some.1 (Result.ofWord?_eq_ok.1 h)
  obtain rfl := Word.product?_eq (Result.ofWord?_eq_ok.1 hm)
  exact ⟨hm, by rwa [Nat.mul_comm]⟩

theorem isContiguous_of_canonical (h : shape.numel = .ok n) (htype : t.type = type)
    (hl : Layout.canonical shape type = .ok t.layout) : t.isContiguous = .ok true := by
  unfold Layout.canonical at hl
  obtain ⟨⟨entries, stride⟩, hr, hl⟩ := Result.bind_eq_ok.1 hl
  have hrow := Result.ofWord?_eq_ok.1 hr
  have hlen := (Layout.rowMajor?_eq hrow).1
  rw [Dims.length_toList] at hlen
  unfold isContiguous Layout.isContiguous Layout.isPacked
  rw [htype, ← Result.pure_eq_ok.1 hl, Layout.axes_ofEntries hlen, Layout.packed?_of_rowMajor? hrow,
    show (Layout.ofEntries shape entries).shape.numel = .ok n from h, Result.ok_bind]
  split <;> rfl

theorem isColumnMajor_of_columnMajor (h : shape.numel = .ok n) (htype : t.type = type)
    (hl : Layout.columnMajor shape type = .ok t.layout) : t.isColumnMajor = .ok true := by
  unfold Layout.columnMajor at hl
  obtain ⟨entries, hr, hl⟩ := Result.bind_eq_ok.1 hl
  obtain ⟨hlen, hpacked⟩ := Layout.columnMajor?_eq (Result.ofWord?_eq_ok.1 hr)
  rw [Dims.length_toList] at hlen
  unfold isColumnMajor Layout.isColumnMajor Layout.isPacked
  rw [htype, ← Result.pure_eq_ok.1 hl, Layout.axes_ofEntries hlen, hpacked,
    show (Layout.ofEntries shape entries).shape.numel = .ok n from h, Result.ok_bind]
  split <;> rfl

/-- The tests for density come to an end on every tensor with elements and a span, and tell whether each element lies at
its position in row-major or column-major order; if one succeeds, then the elements fill the span. The dense layouts of a
shape whose bytes can be counted pass them. They are there if no stride leaves 64 bits, as is the case for every shape with
elements. -/
theorem density_iff_placedBy :
    (∀ {t : Tensor} {s : Span}, t.span = .ok s → 0 < t.shape.toList.prod →
      ((∃ b, t.isContiguous = .ok b) ∧ (t.isContiguous = .ok true ↔ t.PlacedBy Shape.position)) ∧
      ((∃ b, t.isColumnMajor = .ok b) ∧ (t.isColumnMajor = .ok true ↔ t.PlacedBy Shape.columnPosition)) ∧
      (∃ v, t.permute (List.range t.rank).reverse = .ok v ∧ v.isContiguous = t.isColumnMajor) ∧
      (t.isContiguous = .ok true ∨ t.isColumnMajor = .ok true → t.nbytes = .ok s.length)) ∧
    ∀ {shape : Shape} {type : ElementType} {n : Nat}, shape.byteSize type = .ok n →
      ((∃ l, Layout.canonical shape type = .ok l) ↔ ∀ k, type.size * (shape.toList.drop k).prod < Word.limit) ∧
      ((∃ l, Layout.columnMajor shape type = .ok l) ↔ ∀ k, type.size * (shape.toList.take k).prod < Word.limit) ∧
      (0 < shape.toList.prod → (∃ l, Layout.canonical shape type = .ok l) ∧ ∃ l, Layout.columnMajor shape type = .ok l) ∧
      ∀ t : Tensor, t.type = type →
        (Layout.canonical shape type = .ok t.layout → t.isContiguous = .ok true) ∧
        (Layout.columnMajor shape type = .ok t.layout → t.isColumnMajor = .ok true) := by
  refine ⟨fun {t s} h hpos => ⟨⟨isContiguous_of_span h, isContiguous_iff h hpos⟩,
    ⟨isColumnMajor_of_span h, isColumnMajor_iff h hpos⟩, isContiguous_permute_reverse h hpos, ?_⟩,
    fun {shape type n} hsize => ?_⟩
  · rintro (hc | hc)
    · exact nbytes_of_isPacked h hpos (List.reverse_perm _) hc
    · exact nbytes_of_isPacked h hpos (List.Perm.refl _) hc
  · obtain ⟨hnumel, hfit⟩ := numel_of_byteSize hsize
    exact ⟨Layout.canonical_isOk_iff shape type, Layout.columnMajor_isOk_iff shape type,
      fun hpos => ⟨Layout.canonical_eq_ok hpos hfit, Layout.columnMajor_eq_ok hpos hfit⟩,
      fun t htype => ⟨isContiguous_of_canonical hnumel htype, isColumnMajor_of_columnMajor hnumel htype⟩⟩

private theorem three_le_maxRank : 3 ≤ maxRank := by decide

/-- Two rows of three floats, with a dimension of extent one between that has a stride of its own. -/
def oddStride : Tensor where
  buffer := none
  offset := 4
  type := .f32
  device := .cpu
  layout := Layout.ofEntries (Dims.build 3 three_le_maxRank fun i => [2, 1, 3].getD i 0) [12, 999, 4]
  ownership := false

/-- The rows follow one another, the columns do not. -/
theorem oddStride_placedBy :
    oddStride.span = .ok ⟨4, 28⟩ ∧ oddStride.PlacedBy Shape.position ∧ ¬ oddStride.PlacedBy Shape.columnPosition ∧
      oddStride.nbytes = .ok 24 ∧ oddStride.shape.byteSize .f32 = .ok 24 ∧
        (∃ l, Layout.canonical oddStride.shape .f32 = .ok l) ∧ ∃ l, Layout.columnMajor oddStride.shape .f32 = .ok l := by
  have hspan : oddStride.span = .ok ⟨4, 28⟩ := rfl
  have hsize : oddStride.shape.byteSize .f32 = .ok 24 := rfl
  obtain ⟨⟨-, hrow⟩, ⟨-, hcolumn⟩, -, hbytes⟩ := density_iff_placedBy.1 hspan (by decide)
  obtain ⟨-, -, hlayouts, -⟩ := density_iff_placedBy.2 hsize
  have hcontiguous : oddStride.isContiguous = .ok true := rfl
  have hnot : oddStride.isColumnMajor = .ok false := rfl
  refine ⟨hspan, hrow.1 hcontiguous, fun h => ?_, hbytes (.inl hcontiguous), hsize, hlayouts (by decide)⟩
  rw [hcolumn.2 h] at hnot
  simp at hnot

/-! ### Strides beyond 64 bits -/

/-- No rows, and columns that are so many that the stride of the rows is one byte more than 64 bits can count. -/
def vastColumns : Shape := Dims.build 3 three_le_maxRank fun i => [0, 1 <<< 32, 1 <<< 32].getD i 0

/-- The bytes of such a shape can be counted, for there are none, but there are no canonical strides, and so no tensor
that could be contiguous. -/
theorem vastColumns_halts :
    vastColumns.byteSize .u8 = .ok 0 ∧ Tensor.null vastColumns.toList .u8 .cpu = Result.halt .overflow ∧
      ¬ ∃ t : Tensor, Layout.canonical vastColumns .u8 = .ok t.layout ∧ t.isContiguous = .ok true := by
  have hhalts : Layout.canonical vastColumns .u8 = Result.halt .overflow := rfl
  refine ⟨rfl, rfl, ?_⟩
  rintro ⟨t, ht, -⟩
  simp [hhalts] at ht

end Tensor

end StridedTensor
