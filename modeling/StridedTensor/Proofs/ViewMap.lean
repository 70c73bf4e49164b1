import StridedTensor.Proofs.Access
import StridedTensor.Proofs.Axes
import StridedTensor.Tensor.View

/-!
# Views as index maps

A chain of view operations is a map of indices: the element at an index of the view is the element of the tensor at
the index that the chain maps it to (`applyAll_elementOffset`). So a view addresses no bytes but those of the tensor,
and whoever may use the tensor may use the view. The one exception is `asStrided`, which may address any bytes.
-/

namespace StridedTensor

namespace ViewOp

/-- Whether the operation only selects and repeats elements. -/
def keepsElements : ViewOp → Bool
  | asStrided _ _ _ => false
  | _ => true

/-- The index in `t` of the element at `index` of the view that the operation makes of `t`. -/
def source (op : ViewOp) (t : Tensor) (index : List Nat) : List Nat :=
  match op with
  | view | asStrided _ _ _ => index
  | reshape extents => Shape.indexAt t.shape.toList (Shape.position extents index)
  | flatten => Shape.indexAt t.shape.toList (Shape.position [t.shape.toList.prod] index)
  | transpose => Layout.swapLast index
  | slice dim start _ => index.modify dim (· + start)
  | squeeze => Layout.restore t.shape.toList index
  | squeezeDim dim => if t.shape.entry dim = 1 then index.insertIdx dim 0 else index
  | unsqueeze dim => index.eraseIdx dim
  | permute permutation => Layout.scatter permutation index
  | expand extents => Layout.collapse t.shape.toList (index.drop (extents.length - t.rank))

/-- The index in `t` of the element at `index` of the view at the end of a chain. -/
def sourceAll : List ViewOp → Tensor → List Nat → List Nat
  | [], _, index => index
  | op :: ops, t, index =>
    match op.apply t with
    | .ok u => op.source t (sourceAll ops u index)
    | .error _ => index

end ViewOp

namespace Tensor

variable {t u v : Tensor} {f g : List Nat → List Nat}

/-- `v` describes elements of `t`: the element of `t` at `f index` is the one of `v` at `index`. -/
structure Views (v t : Tensor) (f : List Nat → List Nat) : Prop where
  buffer : v.buffer = t.buffer
  type : v.type = t.type
  device : v.device = t.device
  owned : v.ownership = true → v = t
  below : ∀ {index}, List.Forall₂ (· < ·) index v.shape.toList → List.Forall₂ (· < ·) (f index) t.shape.toList
  place : ∀ {index}, List.Forall₂ (· < ·) index v.shape.toList → v.place index = t.place (f index)

theorem Views.refl (t : Tensor) : t.Views t fun index => index :=
  ⟨rfl, rfl, rfl, fun _ => rfl, fun h => h, fun _ => rfl⟩

theorem Views.trans (hv : v.Views u f) (hu : u.Views t g) : v.Views t fun index => g (f index) where
  buffer := hv.buffer.trans hu.buffer
  type := hv.type.trans hu.type
  device := hv.device.trans hu.device
  owned h := by
    obtain rfl := hv.owned h
    exact hu.owned h
  below hi := hu.below (hv.below hi)
  place hi := (hv.place hi).trans (hu.place (hv.below hi))

/-! ### Single steps -/

/-- A view in another layout, from `skip` bytes later on. -/
private theorem views_of_maps {l : Layout} {skip : Nat} (h : Layout.Maps l.axes t.layout.axes f skip) :
    ({ t.withLayout l with offset := t.offset + skip } : Tensor).Views t f := by
  have hbelow : ∀ index, List.Forall₂ (· < ·) index l.shape.toList → Layout.Below l.axes index := by
    intro index hi
    unfold Layout.Below
    rwa [Layout.map_fst_axes]
  refine ⟨rfl, rfl, rfl, fun h => Bool.noConfusion h, fun {index} hi => ?_, fun {index} hi => ?_⟩
  -- what `Maps` says of axes, said of the two tensors
  · have hb := (h index (hbelow index hi)).1
    unfold Layout.Below at hb
    rwa [Layout.map_fst_axes] at hb
  · have hd := (h index (hbelow index hi)).2
    show t.offset + skip + Layout.distance l.axes index = t.offset + Layout.distance t.layout.axes (f index)
    omega

private theorem views_withLayout {l : Layout} (h : Layout.Maps l.axes t.layout.axes f 0) : (t.withLayout l).Views t f :=
  views_of_maps h

private theorem views_view (t : Tensor) : t.view.Views t fun index => index :=
  ⟨rfl, rfl, rfl, fun h => Bool.noConfusion h, fun h => h, fun _ => rfl⟩

theorem reshapeTo_eq_ok {shape : Shape} : t.reshapeTo shape = .ok v ↔ t.isContiguous = .ok true ∧
    ∃ n l, shape.numel = .ok n ∧ t.numel = .ok n ∧ Layout.canonical shape t.type = .ok l ∧ v = t.withLayout l := by
  unfold reshapeTo
  constructor
  · intro h
    obtain ⟨n, hn, h⟩ := Result.bind_eq_ok.1 h
    obtain ⟨m, hm, h⟩ := Result.bind_eq_ok.1 h
    by_cases hne : n = m
    · subst hne
      rw [if_neg (by simp)] at h
      obtain ⟨contiguous, hc, h⟩ := Result.bind_eq_ok.1 h
      cases contiguous with
      | false => simp at h
      | true =>
        obtain ⟨l, hl, h⟩ := Result.bind_eq_ok.1 h
        exact ⟨hc, n, l, hn, hm, hl, (Result.pure_eq_ok.1 h).symm⟩
    · simp [hne] at h
  · rintro ⟨hc, n, l, hn, hm, hl, rfl⟩
    rw [hn, Result.ok_bind, hm, Result.ok_bind, if_neg (by simp), hc, Result.ok_bind, hl]
    rfl

/-- A contiguous tensor in another shape with as many elements: an element keeps its position in row-major order. -/
theorem views_reshapeTo {shape : Shape} (h : t.reshapeTo shape = .ok v) :
    v.Views t (fun index => Shape.indexAt t.shape.toList (Shape.position shape.toList index)) ∧
      v.ownership = false := by
  obtain ⟨hc, n, l, hn, hm, hl, rfl⟩ := reshapeTo_eq_ok.1 h
  obtain ⟨rfl, hdist⟩ := Layout.distance_canonical hl
  have hprod : l.shape.toList.prod = t.shape.toList.prod := by
    rw [← numel_eq hm]
    exact (Word.product?_eq (Result.ofWord?_eq_ok.1 hn)).symm
  have hlt : ∀ {index}, List.Forall₂ (· < ·) index l.shape.toList →
      Shape.position l.shape.toList index < t.shape.toList.prod := by
    intro index hi
    rw [← hprod]
    exact Shape.position_lt hi
  refine ⟨⟨rfl, rfl, rfl, fun h => Bool.noConfusion h, fun hi => ?_, fun {index} hi => ?_⟩, rfl⟩
  · exact Shape.indexAt_below (Nat.lt_of_le_of_lt (Nat.zero_le _) (hlt hi)) _
  · rw [place_of_isContiguous hc (hlt hi), ← hdist index hi]
    rfl

theorem views_slice {dim start stop : Nat} (h : t.slice dim start stop = .ok v) :
    v.Views t (fun index => index.modify dim (· + start)) ∧ v.ownership = false := by
  unfold slice at h
  by_cases hcan : t.canSlice dim start stop = true
  · rw [hcan] at h
    obtain ⟨distance, hd, h⟩ := Result.bind_eq_ok.1 h
    obtain ⟨offset, ho, h⟩ := Result.bind_eq_ok.1 h
    obtain rfl := Result.pure_eq_ok.1 h
    obtain ⟨-, rfl⟩ := Word.mul?_eq_some.1 (Result.ofWord?_eq_ok.1 hd)
    obtain ⟨-, rfl⟩ := Word.add?_eq_some.1 (Result.ofWord?_eq_ok.1 ho)
    simp only [canSlice, Bool.and_eq_true, decide_eq_true_eq] at hcan
    obtain ⟨⟨hdim, hle⟩, hstop⟩ := hcan
    refine ⟨views_of_maps ?_, rfl⟩
    rw [Layout.axes_resize hdim]
    exact Layout.maps_set (Layout.getElem?_axes hdim) hle hstop
  · simp [hcan] at h

private theorem views_squeeze (t : Tensor) : t.squeeze.Views t (Layout.restore t.shape.toList) := by
  apply views_withLayout
  rw [Layout.axes_squeeze, shape, ← Layout.map_fst_axes]
  exact Layout.maps_filter _

private theorem views_squeezeDim {dim : Nat} (h : t.squeezeDim dim = .ok v) :
    v.Views t (fun index => if t.shape.entry dim = 1 then index.insertIdx dim 0 else index) ∧ v.ownership = false := by
  unfold squeezeDim at h
  by_cases hrank : t.rank ≤ dim
  · simp [hrank] at h
  · rw [if_neg hrank] at h
    have hdim : dim < t.layout.rank := Nat.lt_of_not_le hrank
    by_cases h1 : t.shape.entry dim = 1
    · rw [if_neg (by simpa using h1), Except.ok.injEq] at h
      subst h
      simp only [if_pos h1]
      refine ⟨views_withLayout ?_, rfl⟩
      rw [Layout.axes_erase hdim]
      have haxis := Layout.getElem?_axes hdim
      rw [Layout.axis, show t.layout.shape.entry dim = 1 from h1] at haxis
      exact Layout.maps_eraseIdx haxis
    · rw [if_pos h1, Except.ok.injEq] at h
      subst h
      simp only [if_neg h1]
      exact ⟨t.views_view, rfl⟩

private theorem views_unsqueeze {dim : Nat} (h : t.unsqueeze dim = .ok v) :
    v.Views t (fun index => index.eraseIdx dim) ∧ v.ownership = false := by
  unfold unsqueeze at h
  by_cases hrank : t.rank < dim
  · simp [hrank] at h
  · rw [if_neg hrank] at h
    obtain ⟨l, hl, h⟩ := Result.bind_eq_ok.1 h
    obtain rfl := Result.pure_eq_ok.1 h
    refine ⟨views_withLayout ?_, rfl⟩
    rw [Layout.axes_insert hl]
    apply Layout.maps_insertIdx
    rw [Layout.length_axes]
    exact Nat.le_of_not_lt hrank

private theorem views_permute {p : List Nat} (h : t.permute p = .ok v) :
    v.Views t (Layout.scatter p) ∧ v.ownership = false := by
  obtain ⟨⟨hlen, hlt, hnodup⟩, rfl⟩ := permute_eq_ok.1 h
  refine ⟨views_withLayout ?_, rfl⟩
  rw [Layout.axes_permute hlen hlt]
  have hlength : t.layout.axes.length = t.rank := t.layout.length_axes
  rw [← hlength] at hlen hlt
  exact Layout.maps_permute hlen hlt hnodup

private theorem views_expand {extents : List Nat} (h : t.expand extents = .ok v) :
    v.Views t (fun index => Layout.collapse t.shape.toList (index.drop (extents.length - t.rank))) ∧
      v.ownership = false := by
  unfold expand at h
  obtain ⟨target, htarget, h⟩ := Result.bind_eq_ok.1 h
  obtain ⟨l, hl, h⟩ := Result.bind_eq_ok.1 h
  obtain rfl := Result.pure_eq_ok.1 h
  have hrank : target.rank = extents.length := by rw [← Dims.length_toList, Dims.toList_ofList htarget]
  refine ⟨views_withLayout ?_, rfl⟩
  rw [← hrank]
  exact Layout.maps_expand hl

private theorem views_reshape {extents : List Nat} (h : t.reshape extents = .ok v) :
    v.Views t (fun index => Shape.indexAt t.shape.toList (Shape.position extents index)) ∧ v.ownership = false := by
  obtain ⟨shape, hshape, h⟩ := Result.bind_eq_ok.1 h
  rw [← Dims.toList_ofList hshape]
  exact views_reshapeTo h

theorem views_apply {op : ViewOp} (hop : op.keepsElements = true) (h : op.apply t = .ok v) :
    v.Views t (op.source t) ∧ v.ownership = false := by
  cases op with
  | view =>
    cases h
    exact ⟨t.views_view, rfl⟩
  | asStrided extents strides offset => cases hop
  | reshape extents => exact views_reshape h
  | flatten =>
    obtain ⟨n, hn, h⟩ := Result.bind_eq_ok.1 h
    obtain rfl := numel_eq hn
    exact views_reshape h
  | transpose =>
    cases h
    exact ⟨views_withLayout t.layout.maps_transpose, rfl⟩
  | slice dim start stop => exact views_slice h
  | squeeze =>
    cases h
    exact ⟨t.views_squeeze, rfl⟩
  | squeezeDim dim => exact views_squeezeDim h
  | unsqueeze dim => exact views_unsqueeze h
  | permute p => exact views_permute h
  | expand extents => exact views_expand h

/-! ### Chains -/

theorem views_applyAll {ops : List ViewOp} (hops : ∀ op ∈ ops, op.keepsElements = true)
    (h : ViewOp.applyAll ops t = .ok v) : v.Views t (ViewOp.sourceAll ops t) ∧ (ops ≠ [] → v.ownership = false) := by
  induction ops generalizing t with
  | nil =>
    obtain rfl := Result.pure_eq_ok.1 h
    exact ⟨.refl t, fun hne => absurd rfl hne⟩
  | cons op ops ih =>
    unfold ViewOp.applyAll at h
    rw [List.foldlM_cons, Result.bind_eq_ok] at h
    obtain ⟨u, hu, hv⟩ := h
    obtain ⟨hviews, hown⟩ := views_apply (hops op (by simp)) hu
    obtain ⟨hrest, -⟩ := ih (fun op' hop' => hops op' (by simp [hop'])) hv
    refine ⟨?_, fun _ => ?_⟩
    · have hsource : ViewOp.sourceAll (op :: ops) t = fun index => op.source t (ViewOp.sourceAll ops u index) := by
        funext index
        rw [ViewOp.sourceAll, hu]
      rw [hsource]
      exact hrest.trans hviews
    · -- an owner at the end would have to be the view after the first step
      by_contra hne
      obtain rfl := hrest.owned (by simpa using hne)
      exact hne hown

/-! ### What a view may be used for -/

namespace Views

variable {s : Span}

theorem elementOffset (h : v.Views t f) (hs : t.span = .ok s) {index : List Nat}
    (hi : List.Forall₂ (· < ·) index v.shape.toList) :
    v.elementOffset index = .ok (t.place (f index)) ∧ t.elementOffset (f index) = .ok (t.place (f index)) := by
  have ht := elementOffset_of_span hs (h.below hi)
  refine ⟨?_, ht⟩
  obtain ⟨-, hlt, -⟩ := elementOffset_eq_ok.1 ht
  rw [← h.place hi] at hlt ⊢
  exact elementOffset_eq_ok.2 ⟨hi, hlt, rfl⟩

/-- The first and the last element of the view lie in the span of the tensor, so its span does. -/
theorem span (h : v.Views t f) (hs : t.span = .ok s) (hpos : 0 < v.shape.toList.prod)
    (hfit : v.shape.toList.prod < Word.limit) :
    ∃ s', v.span = .ok s' ∧ s.start ≤ s'.start ∧ s'.stop ≤ s.stop := by
  have hfirst := Shape.zeros_below hpos
  have hlast := Shape.last_below hpos
  have hstart := (place_mem_span hs (h.below hfirst)).1
  have hstop := (place_mem_span hs (h.below hlast)).2
  rw [← h.place hfirst, Tensor.place, Layout.distance_replicate_zero, Nat.add_zero] at hstart
  have hend : v.place (v.shape.toList.map (· - 1)) = v.offset + Layout.lastDistance v.layout.axes := by
    rw [Tensor.place, ← Layout.distance_last, Layout.map_fst_axes]
    rfl
  rw [← h.place hlast, hend, ← h.type] at hstop
  obtain ⟨hlt, hs'⟩ := span_of_below hs (h.below hlast)
  have hbound : s.stop < Word.limit := by
    rw [hs']
    exact hlt
  refine ⟨_, (span_eq_ok_of_pos (numel_of_pos hpos hfit) hpos).2 ⟨by omega, rfl⟩, hstart, hstop⟩

theorem offsets_subset (h : v.Views t f) (hs : t.span = .ok s) {s' : Span} (hs' : v.span = .ok s') :
    ∃ places places', t.offsets = .ok places ∧ v.offsets = .ok places' ∧ places' ⊆ places := by
  refine ⟨_, _, offsets_of_span hs, offsets_of_span hs', ?_⟩
  intro o ho
  obtain ⟨index, hi, rfl⟩ := (mem_offsets hs' (offsets_of_span hs')).1 ho
  exact (mem_offsets hs (offsets_of_span hs)).2 ⟨f index, h.below hi, h.place hi⟩

/-- A view with elements can be used wherever the tensor can. -/
theorem validate (h : v.Views t f) (hpos : 0 < v.shape.toList.prod) (hfit : v.shape.toList.prod < Word.limit)
    {c : Context} (hc : c.validate t = .ok ()) : c.validate v = .ok () := by
  obtain ⟨hvalid, hb⟩ := Context.validate_iff.1 hc
  obtain ⟨hcpu, hempty, hzero, s, hs⟩ := validate_eq_ok.1 hvalid
  obtain ⟨s', hs', -, hstop⟩ := h.span hs hpos hfit
  refine Context.validate_iff.2 ⟨validate_eq_ok.2 ⟨?_, fun hnone => ?_, fun hown => ?_, s', hs'⟩, fun id hid => ?_⟩
  · rw [h.device]
    exact hcpu
  · -- a tensor without a buffer has no elements that could be viewed
    rw [h.buffer] at hnone
    have hprod := numel_eq (hempty hnone).2
    have := Shape.prod_pos_of_below (h.below (Shape.zeros_below hpos))
    omega
  · obtain rfl := h.owned hown
    exact hzero hown
  · obtain ⟨b, s₀, hget, hd, hs₀, hle⟩ := hb id (h.buffer.symm.trans hid)
    obtain rfl : s₀ = s := by simpa [hs] using hs₀.symm
    exact ⟨b, s', hget, hd.trans h.device.symm, hs', by omega⟩

end Views

/-- A chain of views of a tensor whose span is in range, if it leaves elements, and a number of them that is in range:
which element of the tensor each element of the view is, and where the view may be used. -/
theorem applyAll_elementOffset {ops : List ViewOp} {s : Span} (hops : ∀ op ∈ ops, op.keepsElements = true)
    (hs : t.span = .ok s) (h : ViewOp.applyAll ops t = .ok v) (hpos : 0 < v.shape.toList.prod)
    (hfit : v.shape.toList.prod < Word.limit) :
    (v.buffer = t.buffer ∧ v.type = t.type ∧ v.device = t.device ∧ (ops ≠ [] → v.ownership = false)) ∧
      (∀ index, List.Forall₂ (· < ·) index v.shape.toList →
        List.Forall₂ (· < ·) (ViewOp.sourceAll ops t index) t.shape.toList ∧
          ∃ o, v.elementOffset index = .ok o ∧ t.elementOffset (ViewOp.sourceAll ops t index) = .ok o) ∧
      (∃ s', v.span = .ok s' ∧ s.start ≤ s'.start ∧ s'.stop ≤ s.stop) ∧
      (∃ places places', t.offsets = .ok places ∧ v.offsets = .ok places' ∧ places' ⊆ places) ∧
      ∀ c : Context, c.validate t = .ok () → c.validate v = .ok () := by
  obtain ⟨hv, hown⟩ := views_applyAll hops h
  obtain ⟨s', hs', hstart, hstop⟩ := hv.span hs hpos hfit
  refine ⟨⟨hv.buffer, hv.type, hv.device, hown⟩, fun index hi => ?_, ⟨s', hs', hstart, hstop⟩,
    hv.offsets_subset hs hs', fun c hc => hv.validate hpos hfit hc⟩
  obtain ⟨hvo, hto⟩ := hv.elementOffset hs hi
  exact ⟨hv.below hi, _, hvo, hto⟩

/-! ### A chain -/

/-- Six floats in two rows, from the second float of a buffer on. -/
def twoRows : Tensor where
  buffer := some 7
  offset := 4
  type := .f32
  device := .cpu
  layout := Layout.ofEntries (Dims.build 2 (by decide) fun i => [2, 3].getD i 0) [12, 4]
  ownership := true

/-- The last two floats of the first row, repeated three times. -/
def rowChain : List ViewOp :=
  [.transpose, .slice 0 1 3, .slice 1 0 1, .squeeze, .reshape [1, 2], .unsqueeze 0, .expand [3, 1, 2],
    .permute [2, 0, 1]]

example : ViewOp.sourceAll rowChain twoRows [1, 2, 0] = [0, 2] := by rfl

theorem rowChain_elementOffset :
    ∃ v, ViewOp.applyAll rowChain twoRows = .ok v ∧
      (v.buffer = twoRows.buffer ∧ v.type = twoRows.type ∧ v.device = twoRows.device ∧
        (rowChain ≠ [] → v.ownership = false)) ∧
      (∀ index, List.Forall₂ (· < ·) index v.shape.toList →
        List.Forall₂ (· < ·) (ViewOp.sourceAll rowChain twoRows index) twoRows.shape.toList ∧
          ∃ o, v.elementOffset index = .ok o ∧
            twoRows.elementOffset (ViewOp.sourceAll rowChain twoRows index) = .ok o) ∧
      (∃ s', v.span = .ok s' ∧ 4 ≤ s'.start ∧ s'.stop ≤ 28) ∧
      (∃ places places', twoRows.offsets = .ok places ∧ v.offsets = .ok places' ∧ places' ⊆ places) ∧
      ∀ c : Context, c.validate twoRows = .ok () → c.validate v = .ok () :=
  ⟨_, rfl, applyAll_elementOffset (s := ⟨4, 28⟩) (by decide) rfl rfl (by decide) (by decide)⟩

end Tensor

end StridedTensor
