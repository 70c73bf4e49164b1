import StridedTensor.Proofs.Contiguity
import StridedTensor.Proofs.ViewMap

/-!
# Reshaping

A tensor with elements and a span can be given every other shape with as many elements exactly if it is contiguous
(`Tensor.reshapeTo_cases`). The view lists the same bytes in the same order (`Tensor.rearranges_reshapeTo`), although its
strides are computed from the new shape alone. What it was reshaped from leaves no trace, so the last of several shapes
decides (`Tensor.reshapeTo_reshapeTo`).
-/

namespace StridedTensor

namespace Tensor

variable {t u v : Tensor} {s : Span} {shape shape' : Shape} {extents : List Nat} {n : Nat}

theorem reshape_eq_ok : t.reshape extents = .ok v ↔ ∃ shape, Dims.ofList extents = .ok shape ∧ t.reshapeTo shape = .ok v :=
  Result.bind_eq_ok

theorem reshape_toList (t : Tensor) (shape : Shape) : t.reshape shape.toList = t.reshapeTo shape := by
  unfold reshape
  rw [Dims.ofList_toList, Result.ok_bind]

/-! ### When there is a view -/

/-- A contiguous tensor has as many bytes as its span, so the strides of the new shape are in range. -/
private theorem exists_canonical (hs : t.span = .ok s) (hpos : 0 < t.shape.toList.prod) (hc : t.isContiguous = .ok true)
    (hprod : shape.toList.prod = t.shape.toList.prod) : ∃ l, Layout.canonical shape t.type = .ok l := by
  obtain ⟨m, hm⟩ := numel_of_span hs
  obtain ⟨hfit, hstop⟩ := (span_eq_ok_of_pos hm (by rwa [numel_eq hm])).1 hs
  rw [span_of_isContiguous hc hs, Span.mk.injEq] at hstop
  exact Layout.canonical_eq_ok (by rwa [hprod]) (by rw [hprod]; omega)

/-- Reshaping succeeds if the counts agree and the tensor is contiguous, and is rejected otherwise. -/
theorem reshapeTo_cases (hs : t.span = .ok s) (hpos : 0 < t.shape.toList.prod) (hn : shape.numel = .ok n) :
    ((t.numel = .ok n ∧ t.isContiguous = .ok true) ∧ ∃ v, t.reshapeTo shape = .ok v) ∨
      (¬ (t.numel = .ok n ∧ t.isContiguous = .ok true) ∧ ∃ e, t.reshapeTo shape = Result.reject e) := by
  obtain ⟨m, hm⟩ := numel_of_span hs
  obtain ⟨b, hb⟩ := isContiguous_of_span hs
  by_cases hcount : n = m
  · subst hcount
    cases b with
    | true =>
      have hprod : shape.toList.prod = t.shape.toList.prod := by
        rw [← numel_eq hm]
        exact (Word.product?_eq (Result.ofWord?_eq_ok.1 hn)).symm
      obtain ⟨l, hl⟩ := exists_canonical hs hpos hb hprod
      exact .inl ⟨⟨hm, hb⟩, _, reshapeTo_eq_ok.2 ⟨hb, n, l, hn, hm, hl, rfl⟩⟩
    | false =>
      refine .inr ⟨fun h => by simp [hb] at h, .nonContiguous t.shape t.strides, ?_⟩
      unfold reshapeTo
      rw [hn, Result.ok_bind, hm, Result.ok_bind, if_neg (by simp), hb]
      rfl
  · refine .inr ⟨fun h => hcount (Except.ok.inj (h.1.symm.trans hm)), .reshape t.shape shape, ?_⟩
    unfold reshapeTo
    rw [hn, Result.ok_bind, hm, Result.ok_bind, if_pos hcount]

theorem canReshape_of_span (hs : t.span = .ok s) (hshape : (Dims.ofList extents : Result Shape) = .ok shape)
    (hn : shape.numel = .ok n) :
    ∃ b, t.canReshape extents = .ok b ∧ (b = true ↔ t.numel = .ok n ∧ t.isContiguous = .ok true) := by
  obtain ⟨m, hm⟩ := numel_of_span hs
  obtain ⟨b, hb⟩ := isContiguous_of_span hs
  unfold canReshape
  simp only [hshape, hn, hm, hb, Result.ok_bind, Except.ok.injEq]
  by_cases hcount : n = m
  · rw [if_pos hcount]
    exact ⟨b, rfl, by simp [hcount]⟩
  · rw [if_neg hcount]
    exact ⟨false, rfl, by simp [Ne.symm hcount]⟩

/-! ### What the view lists -/

/-- The view has the same elements in the same order. -/
structure Rearranges (u t : Tensor) : Prop where
  contiguous : u.isContiguous = .ok true
  offsets : ∃ places, t.offsets = .ok places ∧ u.offsets = .ok places

private theorem isContiguous_reshapeTo (h : t.reshapeTo shape = .ok u) : u.isContiguous = .ok true := by
  obtain ⟨-, n, l, hn, -, hl, rfl⟩ := reshapeTo_eq_ok.1 h
  exact isContiguous_of_canonical hn rfl hl

/-- Only the buffer, the offset and the type of a contiguous tensor matter for another shape, and its count. -/
theorem reshapeTo_reshapeTo (h : t.reshapeTo shape = .ok u) :
    u.reshapeTo shape' = .ok v ↔ t.reshapeTo shape' = .ok v := by
  have huc := isContiguous_reshapeTo h
  obtain ⟨hc, n, l, hn, hm, hl, rfl⟩ := reshapeTo_eq_ok.1 h
  obtain ⟨rfl, -⟩ := Layout.distance_canonical hl
  have hun : (t.withLayout l).numel = .ok n := hn
  rw [reshapeTo_eq_ok, reshapeTo_eq_ok, hun, hm]
  constructor
  · rintro ⟨-, m, l', hm', hcount, hl', rfl⟩
    exact ⟨hc, m, l', hm', hcount, hl', rfl⟩
  · rintro ⟨-, m, l', hm', hcount, hl', rfl⟩
    exact ⟨huc, m, l', hm', hcount, hl', rfl⟩

private theorem shape_reshapeTo (h : t.reshapeTo shape = .ok u) :
    u.shape = shape ∧ u.shape.toList.prod = t.shape.toList.prod := by
  obtain ⟨-, n, l, hn, hm, hl, rfl⟩ := reshapeTo_eq_ok.1 h
  obtain ⟨rfl, -⟩ := Layout.distance_canonical hl
  refine ⟨rfl, ?_⟩
  rw [← numel_eq hm]
  exact (Word.product?_eq (Result.ofWord?_eq_ok.1 hn)).symm

theorem rearranges_reshapeTo (hs : t.span = .ok s) (hpos : 0 < t.shape.toList.prod) (h : t.reshapeTo shape = .ok u) :
    u.Rearranges t := by
  have hview := (views_reshapeTo h).1
  obtain ⟨m, hm⟩ := numel_of_span hs
  obtain ⟨rfl, hprod⟩ := shape_reshapeTo h
  obtain ⟨s', hs', -⟩ := hview.span hs (by rwa [hprod])
    (by rw [hprod, ← numel_eq hm]; exact Word.product?_lt (Result.ofWord?_eq_ok.1 hm))
  refine ⟨isContiguous_reshapeTo h, _, offsets_of_span hs, ?_⟩
  rw [offsets_of_span hs', hprod, Except.ok.injEq]
  apply List.map_congr_left
  intro k hk
  rw [← hprod, List.mem_range] at hk
  rw [hview.place (Shape.indexAt_below (Nat.lt_of_le_of_lt (Nat.zero_le k) hk) k), Shape.position_indexAt hk]

/-- Back in its own shape, a tensor has its elements where it had them, whatever its strides were. -/
private theorem elementOffset_reshapeTo_self (hs : t.span = .ok s) (h : t.reshapeTo t.shape = .ok v)
    (index : List Nat) :
    v.elementOffset index = t.elementOffset index := by
  have hview := (views_reshapeTo h).1
  have hshape := (shape_reshapeTo h).1
  by_cases hi : List.Forall₂ (· < ·) index t.shape.toList
  · have hi' : List.Forall₂ (· < ·) index v.shape.toList := by rwa [hshape]
    rw [(hview.elementOffset hs hi').1, elementOffset_of_span hs hi, Shape.indexAt_position hi]
  · rw [elementOffset_of_not_below hi, elementOffset_of_not_below (by rwa [hshape]), hshape]

/-! ### Lists of extents -/

private theorem reshape_cases (hs : t.span = .ok s) (hpos : 0 < t.shape.toList.prod) (hlen : extents.length ≤ maxRank)
    (hn : Word.product? extents = some n) :
    ((t.numel = .ok n ∧ t.isContiguous = .ok true) ∧ ∃ v, t.reshape extents = .ok v) ∨
      (¬ (t.numel = .ok n ∧ t.isContiguous = .ok true) ∧ ∃ e, t.reshape extents = Result.reject e) := by
  obtain ⟨shape, hshape⟩ : ∃ shape : Shape, Dims.ofList extents = .ok shape := Dims.exists_ofList hlen
  rw [← Dims.toList_ofList hshape] at hn ⊢
  rw [reshape_toList]
  exact reshapeTo_cases hs hpos (Result.ofWord?_eq_ok.2 hn)

theorem sound_reshape (hs : t.span = .ok s) (hpos : 0 < t.shape.toList.prod) (hlen : extents.length ≤ maxRank)
    (hn : Word.product? extents = some n) : (t.reshape extents).Sound := by
  rcases reshape_cases hs hpos hlen hn with ⟨-, v, hv⟩ | ⟨-, e, he⟩
  · rw [hv]
    exact .ok v
  · rw [he]
    exact .reject e

theorem exists_reshape_iff (hs : t.span = .ok s) (hpos : 0 < t.shape.toList.prod) (hlen : extents.length ≤ maxRank)
    (hn : Word.product? extents = some n) :
    (∃ v, t.reshape extents = .ok v) ↔ t.numel = .ok n ∧ t.isContiguous = .ok true := by
  rcases reshape_cases hs hpos hlen hn with ⟨h, hv⟩ | ⟨h, e, he⟩
  · exact iff_of_true hv h
  · exact iff_of_false (by simp [he]) h

theorem reshape_reshape (h : t.reshape extents = .ok u) {extents' : List Nat} :
    u.reshape extents' = .ok v ↔ t.reshape extents' = .ok v := by
  obtain ⟨shape, -, h⟩ := reshape_eq_ok.1 h
  rw [reshape_eq_ok, reshape_eq_ok]
  exact exists_congr fun shape' => and_congr_right fun _ => reshapeTo_reshapeTo h

theorem flatten_eq (hn : t.numel = .ok n) : t.flatten = t.reshape [n] := by
  unfold flatten
  rw [hn, Result.ok_bind]

theorem rank_flatten (h : t.flatten = .ok u) : u.rank = 1 := by
  obtain ⟨n, -, h⟩ := Result.bind_eq_ok.1 h
  obtain ⟨shape, hshape, h⟩ := reshape_eq_ok.1 h
  have hrank : shape.rank = 1 := by rw [← Dims.length_toList, Dims.toList_ofList hshape, List.length_singleton]
  rw [← hrank, ← (shape_reshapeTo h).1]
  rfl

/-- Reshaping a tensor with elements to extents whose products are in range succeeds exactly if their product is the
number of elements and the tensor is contiguous, and nothing stops it. The view is contiguous and has the same elements in
the same order; reshaping it again is reshaping the tensor, and in the tensor's own shape it addresses every index as the
tensor does. Flattening is reshaping to one dimension. -/
theorem reshape_rearranges (hs : t.span = .ok s) (hpos : 0 < t.shape.toList.prod) :
    (∀ {extents n}, extents.length ≤ maxRank → Word.product? extents = some n →
      (t.reshape extents).Sound ∧ ∃ b, t.canReshape extents = .ok b ∧ ((∃ u, t.reshape extents = .ok u) ↔ b = true) ∧
        (b = true ↔ t.numel = .ok n ∧ t.isContiguous = .ok true)) ∧
    (∀ {extents u}, t.reshape extents = .ok u → u.shape.toList = extents ∧ u.Rearranges t ∧
      (∀ {extents' v}, u.reshape extents' = .ok v ↔ t.reshape extents' = .ok v) ∧
      ∃ v, u.reshape t.shape.toList = .ok v ∧ ∀ index, v.elementOffset index = t.elementOffset index) ∧
    t.flatten.Sound ∧ ((∃ u, t.flatten = .ok u) ↔ t.isContiguous = .ok true) ∧
      ∀ {u}, t.flatten = .ok u → u.rank = 1 ∧ u.Rearranges t := by
  obtain ⟨m, hm⟩ := numel_of_span hs
  have hcount : Word.product? t.shape.toList = some m := Result.ofWord?_eq_ok.1 hm
  have hlen : [m].length ≤ maxRank := by
    rw [List.length_singleton]
    decide
  have hone : Word.product? [m] = some m := by
    have hlt := Word.product?_lt hcount
    simp [Word.product?, Word.mul?, hlt]
  refine ⟨fun {extents n} hlen hn => ⟨sound_reshape hs hpos hlen hn, ?_⟩, fun {extents u} h => ?_, ?_, ?_,
    fun {u} h => ⟨rank_flatten h, ?_⟩⟩
  · obtain ⟨shape, hshape⟩ : ∃ shape : Shape, Dims.ofList extents = .ok shape := Dims.exists_ofList hlen
    obtain ⟨b, hb, hiff⟩ := canReshape_of_span hs hshape
      (Result.ofWord?_eq_ok.2 (by rwa [Dims.toList_ofList hshape]))
    exact ⟨b, hb, (exists_reshape_iff hs hpos hlen hn).trans hiff.symm, hiff⟩
  · obtain ⟨shape, hshape, hview⟩ := reshape_eq_ok.1 h
    have hc := (reshapeTo_eq_ok.1 hview).1
    obtain ⟨v, hv⟩ := (exists_reshape_iff hs hpos (by simpa using t.shape.rank_le) hcount).2 ⟨hm, hc⟩
    refine ⟨by rw [(shape_reshapeTo hview).1, Dims.toList_ofList hshape], rearranges_reshapeTo hs hpos hview,
      reshape_reshape h, v, (reshape_reshape h).2 hv, elementOffset_reshapeTo_self hs ?_⟩
    rwa [reshape_toList] at hv
  · rw [flatten_eq hm]
    exact sound_reshape hs hpos hlen hone
  · rw [flatten_eq hm, exists_reshape_iff hs hpos hlen hone]
    exact and_iff_right hm
  · rw [flatten_eq hm] at h
    obtain ⟨shape, -, h⟩ := reshape_eq_ok.1 h
    exact rearranges_reshapeTo hs hpos h

/-- Two rows of three floats with an odd stride between them are three rows of two floats as well. -/
theorem oddStride_rearranges :
    oddStride.span = .ok ⟨4, 28⟩ ∧ oddStride.canReshape [3, 2] = .ok true ∧
      ∃ u, oddStride.reshape [3, 2] = .ok u ∧ u.Rearranges oddStride ∧
        (∃ v, u.reshape [2, 1, 3] = .ok v ∧ v ≠ oddStride ∧ ∀ index, v.elementOffset index = oddStride.elementOffset index) ∧
        oddStride.flatten.Sound ∧ ∃ v, oddStride.flatten = .ok v ∧ v.rank = 1 := by
  have hspan : oddStride.span = .ok ⟨4, 28⟩ := rfl
  obtain ⟨hwhen, hview, hsound, -, hflat⟩ := reshape_rearranges hspan (by decide)
  have hproduct : Word.product? [3, 2] = some 6 := rfl
  obtain ⟨-, b, hb, hiff, htrue⟩ := hwhen (by decide) hproduct
  obtain rfl : b = true := htrue.2 ⟨rfl, rfl⟩
  obtain ⟨u, hu⟩ := hiff.2 rfl
  obtain ⟨-, hrearranges, hagain, v, hv, hplaces⟩ := hview hu
  have hflatten : oddStride.flatten = .ok _ := rfl
  refine ⟨hspan, hb, u, hu, hrearranges, ⟨v, hv, ?_, hplaces⟩, hsound, _, hflatten, (hflat hflatten).1⟩
  have hback : oddStride.reshape [2, 1, 3] = .ok _ := rfl
  obtain rfl := Except.ok.inj (hback.symm.trans (hagain.1 hv))
  decide

end Tensor

end StridedTensor
