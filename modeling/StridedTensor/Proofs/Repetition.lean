import Mathlib.Algebra.BigOperators.Ring.List
import StridedTensor.Proofs.Creation
import StridedTensor.Proofs.ViewMap

/-!
# Repeated elements

A dimension repeats its elements if it has more than one of them and a stride of zero. What repeats elements puts two of
them in one place (`Tensor.exists_sameOffset`). The row-major layout has a stride of zero exactly where a dimension of
extent zero comes after one of extent greater than one (`Layout.advances_canonical`), and the operations on views keep
the strides or return to that layout. So only `asStrided` and `expand` repeat elements that there are
(`Tensor.advances_of_created`).
-/

namespace StridedTensor

/-! ### Axes -/

namespace Layout

variable {axes axes' : List Axis} {l : Layout}

/-- Along every axis with more than one entry the next entry lies elsewhere. -/
def Advances (axes : List Axis) : Prop := ∀ a ∈ axes, 1 < a.1 → a.2 ≠ 0

theorem isBroadcast_eq_false : l.isBroadcast = false ↔ Advances l.axes := by
  simp [isBroadcast, Advances]

/-- Where an axis does not advance, its first two entries are the same. -/
private theorem exists_distance_eq_zero (hpos : 0 < (axes.map Prod.fst).prod) (h : ¬ Advances axes) :
    ∃ index, Below axes index ∧ index ≠ List.replicate axes.length 0 ∧ distance axes index = 0 := by
  induction axes with
  | nil => exact absurd (by simp [Advances]) h
  | cons a axes ih =>
    rw [List.map_cons, List.prod_cons] at hpos
    have ha : 0 < a.1 := Nat.pos_of_mul_pos_right hpos
    have haxes : 0 < (axes.map Prod.fst).prod := Nat.pos_of_mul_pos_left hpos
    by_cases hrest : Advances axes
    · obtain ⟨hone, hzero⟩ : 1 < a.1 ∧ a.2 = 0 := by
        by_contra hno
        refine h fun b hb hlt hb0 => ?_
        rcases List.mem_cons.1 hb with rfl | hb
        · exact hno ⟨hlt, hb0⟩
        · exact hrest b hb hlt hb0
      have hzeros : Below axes (List.replicate axes.length 0) := by
        have := Shape.zeros_below haxes
        rwa [List.length_map] at this
      refine ⟨1 :: List.replicate axes.length 0, below_cons.2 ⟨hone, hzeros⟩, by simp [List.replicate_succ], ?_⟩
      rw [distance_cons, hzero, distance_replicate_zero]
    · obtain ⟨index, hbelow, hne, hdistance⟩ := ih haxes hrest
      refine ⟨0 :: index, below_cons.2 ⟨ha, hbelow⟩, by simpa [List.replicate_succ] using hne, ?_⟩
      rw [distance_cons, hdistance, Nat.zero_mul]

/-- Every axis has one entry at most, or is an axis of the other layout that may have lost entries. -/
def Narrows (axes' axes : List Axis) : Prop := ∀ a ∈ axes', a.1 ≤ 1 ∨ ∃ b ∈ axes, a.1 ≤ b.1 ∧ a.2 = b.2

private theorem Advances.of_narrows (h : Advances axes) (hn : Narrows axes' axes) : Advances axes' := by
  intro a ha hlt
  rcases hn a ha with hle | ⟨b, hb, hle, heq⟩
  · omega
  · rw [heq]
    exact h b hb (hlt.trans_le hle)

private theorem narrows_of_subset (h : axes' ⊆ axes) :
    Narrows axes' axes := fun a ha => .inr ⟨a, h ha, Nat.le_refl _, rfl⟩

private theorem narrows_set {dim extent : Nat} {a : Axis} (h : axes[dim]? = some a) (hle : extent ≤ a.1) :
    Narrows (axes.set dim (extent, a.2)) axes := by
  intro b hb
  rcases List.mem_or_eq_of_mem_set hb with hb | rfl
  · exact narrows_of_subset (List.Subset.refl axes) b hb
  · exact .inr ⟨a, List.mem_of_getElem? h, hle, rfl⟩

private theorem narrows_insertIdx (axes : List Axis) (dim stride : Nat) :
    Narrows (axes.insertIdx dim (1, stride)) axes := by
  intro b hb
  rcases List.eq_or_mem_of_mem_insertIdx hb with rfl | hb
  · exact .inl (Nat.le_refl 1)
  · exact narrows_of_subset (List.Subset.refl axes) b hb

end Layout

/-! ### Row-major strides -/

namespace Shape

/-- No dimension of extent zero comes after one of extent greater than one. -/
def ZerosFirst (ns : List Nat) : Prop := ns.Pairwise fun n m => 1 < n → m ≠ 0

private theorem zerosFirst_of_pos {ns : List Nat} (h : 0 < ns.prod) : ZerosFirst ns :=
  List.pairwise_of_forall_mem_list fun _ _ _ hm _ h0 => h.ne' (List.prod_eq_zero_iff.2 (h0 ▸ hm))

end Shape

namespace Layout

private theorem advances_rowMajor? {size : Nat} {ns entries : List Nat} {stride : Nat} (hsize : 0 < size)
    (h : Shape.rowMajor? size ns = some (entries, stride)) : Advances (ns.zip entries) ↔ Shape.ZerosFirst ns := by
  induction ns generalizing entries stride with
  | nil => simp [Advances, Shape.ZerosFirst]
  | cons n ns ih =>
    simp only [Shape.rowMajor?, Option.bind_eq_bind, Option.bind_eq_some_iff, Prod.exists, Option.pure_def,
      Option.some.injEq, Prod.mk.injEq] at h
    obtain ⟨strides, stride', hrec, m, -, rfl, -⟩ := h
    obtain ⟨-, rfl, -⟩ := rowMajor?_eq hrec
    -- the stride is the size of what the dimensions behind hold
    have hzero : size * ns.prod ≠ 0 ↔ ∀ m ∈ ns, m ≠ 0 := by
      rw [Nat.mul_ne_zero_iff, ne_eq ns.prod, List.prod_eq_zero_iff]
      exact ⟨fun h m hm h0 => h.2 (h0 ▸ hm), fun h => ⟨hsize.ne', fun h0 => h 0 h0 rfl⟩⟩
    have hcons : Advances ((n :: ns).zip (size * ns.prod :: strides)) ↔
        (1 < n → size * ns.prod ≠ 0) ∧ Advances (ns.zip strides) := by
      simp [Advances, List.zip_cons_cons]
    rw [hcons, ih hrec, hzero, Shape.ZerosFirst, Shape.ZerosFirst, List.pairwise_cons]
    exact and_congr_left fun _ => ⟨fun h m hm hn => h hn m hm, fun h hn m hm => h m hm hn⟩

theorem advances_canonical {s : Shape} {t : ElementType} {l : Layout} (h : canonical s t = .ok l) :
    Advances l.axes ↔ Shape.ZerosFirst s.toList := by
  unfold canonical at h
  obtain ⟨⟨entries, stride⟩, hr, h⟩ := Result.bind_eq_ok.1 h
  have hrow := Result.ofWord?_eq_ok.1 hr
  obtain ⟨hlen, -, -⟩ := rowMajor?_eq hrow
  obtain rfl := Result.pure_eq_ok.1 h
  rw [axes_ofEntries (by simpa using hlen)]
  exact advances_rowMajor? t.size_pos hrow

end Layout

/-! ### Views -/

namespace ViewOp

/-- The operations that may give a dimension of more than one entry a stride of zero. -/
def repeats : ViewOp → Bool
  | asStrided _ _ _ | expand _ => true
  | _ => false

theorem keepsElements_of_repeats {op : ViewOp} (h : op.repeats = false) : op.keepsElements = true := by
  cases op <;> first | rfl | contradiction

end ViewOp

namespace Tensor

open Layout

variable {t u v : Tensor}

/-- The tensor has the strides of the row-major layout, whether there are elements or not. -/
def RowMajor (t : Tensor) : Prop := Layout.canonical t.shape t.type = .ok t.layout

theorem RowMajor.advances (h : t.RowMajor) : Advances t.layout.axes ↔ Shape.ZerosFirst t.shape.toList :=
  advances_canonical h

theorem rowMajor_reshape {extents : List Nat} (h : t.reshape extents = .ok v) :
    v.RowMajor ∧ v.shape.toList = extents := by
  obtain ⟨shape, hshape, h⟩ := Result.bind_eq_ok.1 h
  obtain ⟨-, n, l, -, -, hl, rfl⟩ := reshapeTo_eq_ok.1 h
  obtain ⟨rfl, -⟩ := distance_canonical hl
  exact ⟨hl, Dims.toList_ofList hshape⟩

private theorem narrows_slice {dim start stop : Nat} (h : t.slice dim start stop = .ok v) :
    Narrows v.layout.axes t.layout.axes := by
  unfold slice at h
  by_cases hcan : t.canSlice dim start stop = true
  · rw [hcan] at h
    obtain ⟨distance, -, h⟩ := Result.bind_eq_ok.1 h
    obtain ⟨offset, -, h⟩ := Result.bind_eq_ok.1 h
    obtain rfl := Result.pure_eq_ok.1 h
    simp only [canSlice, Bool.and_eq_true, decide_eq_true_eq] at hcan
    obtain ⟨⟨hdim, -⟩, hstop⟩ := hcan
    have hle : stop - start ≤ t.layout.shape.entry dim := (Nat.sub_le _ _).trans hstop
    show Narrows (t.layout.resize dim (stop - start)).axes t.layout.axes
    rw [axes_resize hdim]
    exact narrows_set (getElem?_axes hdim) hle
  · simp [hcan] at h

private theorem narrows_squeezeDim {dim : Nat} (h : t.squeezeDim dim = .ok v) :
    Narrows v.layout.axes t.layout.axes := by
  unfold squeezeDim at h
  split at h
  · simp at h
  · rename_i hrank
    split at h
    · obtain rfl := Except.ok.inj h
      exact narrows_of_subset (List.Subset.refl _)
    · obtain rfl := Except.ok.inj h
      refine narrows_of_subset ?_
      show (t.layout.erase dim).axes ⊆ t.layout.axes
      rw [axes_erase (Nat.lt_of_not_le hrank)]
      exact List.eraseIdx_subset

private theorem narrows_unsqueeze {dim : Nat} (h : t.unsqueeze dim = .ok v) : Narrows v.layout.axes t.layout.axes := by
  unfold unsqueeze at h
  split at h
  · simp at h
  · obtain ⟨l, hl, h⟩ := Result.bind_eq_ok.1 h
    obtain rfl := Result.pure_eq_ok.1 h
    show Narrows l.axes t.layout.axes
    rw [axes_insert hl]
    exact narrows_insertIdx _ _ _

private theorem narrows_permute {p : List Nat} (h : t.permute p = .ok v) : Narrows v.layout.axes t.layout.axes := by
  obtain ⟨⟨hlen, hlt, -⟩, rfl⟩ := permute_eq_ok.1 h
  refine narrows_of_subset ?_
  show (t.layout.gather fun i => p.getD i 0).axes ⊆ t.layout.axes
  rw [axes_permute hlen hlt]
  intro a ha
  obtain ⟨j, hj, rfl⟩ := List.mem_map.1 ha
  rw [List.getD_eq_getElem?_getD, getElem?_axes (hlt j hj), Option.getD_some]
  exact List.mem_of_getElem? (getElem?_axes (hlt j hj))

/-- An operation that does not repeat keeps the strides, or lays the elements out in row-major order. -/
private theorem narrows_or_rowMajor {op : ViewOp} (hop : op.repeats = false) (h : op.apply t = .ok v) :
    Narrows v.layout.axes t.layout.axes ∨ v.RowMajor ∧
      (op = .reshape v.shape.toList ∨ v.shape.toList = [t.shape.toList.prod]) := by
  cases op with
  | view =>
    cases h
    exact .inl (narrows_of_subset (List.Subset.refl _))
  | asStrided | expand => contradiction
  | reshape extents =>
    obtain ⟨hrow, rfl⟩ := rowMajor_reshape h
    exact .inr ⟨hrow, .inl rfl⟩
  | flatten =>
    obtain ⟨n, hn, h⟩ := Result.bind_eq_ok.1 h
    obtain ⟨hrow, hshape⟩ := rowMajor_reshape h
    exact .inr ⟨hrow, .inr (by rw [hshape, numel_eq hn])⟩
  | transpose =>
    cases h
    refine .inl (narrows_of_subset ?_)
    show t.layout.transpose.axes ⊆ t.layout.axes
    rcases t.layout.axes_transpose with ⟨-, h⟩ | ⟨lead, a, b, h, h'⟩
    · rw [h]
      exact List.Subset.refl _
    · rw [h, h']
      exact (List.Perm.append_left lead (List.Perm.swap a b [])).subset
  | slice dim start stop => exact .inl (narrows_slice h)
  | squeeze =>
    cases h
    refine .inl (narrows_of_subset ?_)
    show t.layout.squeeze.axes ⊆ t.layout.axes
    rw [axes_squeeze]
    exact List.filter_sublist.subset
  | squeezeDim dim => exact .inl (narrows_squeezeDim h)
  | unsqueeze dim => exact .inl (narrows_unsqueeze h)
  | permute p => exact .inl (narrows_permute h)

theorem advances_apply {op : ViewOp} (hop : op.repeats = false) (h : op.apply t = .ok v)
    (ht : Advances t.layout.axes)
    (hzeros : 0 < v.shape.toList.prod ∨ ∀ extents, op = .reshape extents → Shape.ZerosFirst extents) :
    Advances v.layout.axes := by
  rcases narrows_or_rowMajor hop h with hn | ⟨hrow, hshape⟩
  · exact ht.of_narrows hn
  · rw [hrow.advances]
    rcases hzeros with hpos | hzeros
    · exact Shape.zerosFirst_of_pos hpos
    · rcases hshape with hreshape | hflat
      · exact hzeros _ hreshape
      · rw [hflat]
        exact List.pairwise_singleton _ _

/-- A chain that does not repeat keeps the next entry elsewhere, if there are elements at its end or the shapes on its
way allow it. -/
theorem advances_applyAll {ops : List ViewOp} (hops : ∀ op ∈ ops, op.repeats = false)
    (h : ViewOp.applyAll ops t = .ok v) (ht : Advances t.layout.axes)
    (hzeros : 0 < v.shape.toList.prod ∨ ∀ extents, .reshape extents ∈ ops → Shape.ZerosFirst extents) :
    Advances v.layout.axes := by
  induction ops generalizing t with
  | nil =>
    obtain rfl := Result.pure_eq_ok.1 h
    exact ht
  | cons op ops ih =>
    unfold ViewOp.applyAll at h
    rw [List.foldlM_cons, Result.bind_eq_ok] at h
    obtain ⟨u, hu, hv⟩ := h
    have hrest : ∀ op ∈ ops, op.repeats = false := fun op' hop' => hops op' (by simp [hop'])
    have hviews := (views_applyAll (fun op hop => ViewOp.keepsElements_of_repeats (hrest op hop)) hv).1
    refine ih hrest hv (advances_apply (hops op (by simp)) hu ht ?_) ?_
    · -- an element at the end of the chain is one of the tensor after its first step
      refine hzeros.imp (fun hpos => Shape.prod_pos_of_below (hviews.below (Shape.zeros_below hpos))) ?_
      rintro hextents extents rfl
      exact hextents extents (by simp)
    · exact hzeros.imp_right fun hextents extents hmem => hextents extents (by simp [hmem])

/-! ### Two elements in one place -/

private theorem elementOffset_of_distance_eq_zero {index : List Nat} (hi : Below t.layout.axes index)
    (h : distance t.layout.axes index = 0) : t.elementOffset index = Result.ofWord? (Word.add? t.offset 0) := by
  have hbelow : t.layout.inBounds index = true := by
    rw [inBounds_iff, ← map_fst_axes]
    exact hi
  have hdistance : distance? t.layout.axes index = some 0 := by
    rw [distance?_eq_some, h]
    decide
  unfold elementOffset
  rw [hbelow, hdistance]
  rfl

/-- What repeats elements has two different indices for one place. -/
theorem exists_sameOffset (h : u.isBroadcast = true) (hpos : 0 < u.shape.toList.prod) :
    ∃ index index', index ≠ index' ∧ List.Forall₂ (· < ·) index u.shape.toList ∧
      List.Forall₂ (· < ·) index' u.shape.toList ∧ u.elementOffset index = u.elementOffset index' ∧
      (u.offset < Word.limit → u.elementOffset index = .ok u.offset) := by
  have hshape : u.layout.axes.map Prod.fst = u.shape.toList := map_fst_axes _
  rw [← hshape] at hpos ⊢
  have hnot : ¬ Advances u.layout.axes := by
    rw [← isBroadcast_eq_false, Bool.not_eq_false]
    exact h
  obtain ⟨index, hbelow, hne, hdistance⟩ := exists_distance_eq_zero hpos hnot
  have hzeros := Shape.zeros_below hpos
  rw [List.length_map] at hzeros
  have hfirst := elementOffset_of_distance_eq_zero hzeros (distance_replicate_zero _ _)
  have hsecond := elementOffset_of_distance_eq_zero hbelow hdistance
  refine ⟨_, index, hne.symm, hzeros, hbelow, hfirst.trans hsecond.symm, fun hlt => ?_⟩
  rw [hfirst, Word.add?_eq_some.2 ⟨hlt, rfl⟩]
  rfl

/-! ### Tensors that are made -/

private theorem rowMajor_borrowed {buffer : Option BufferId} {shape : Shape} {type : ElementType} {device : Device}
    (h : borrowed buffer shape type device = .ok t) : t.RowMajor := by
  obtain ⟨l, hl, h⟩ := Result.bind_eq_ok.1 h
  obtain rfl := Result.pure_eq_ok.1 h
  obtain ⟨rfl, -⟩ := distance_canonical hl
  exact hl

end Tensor

namespace Workspace

variable {w w' : Workspace} {t : Tensor} {type : ElementType} {device : Device} {extents : List Nat}

private theorem rowMajor_allocShape {shape : Shape} (h : w.allocShape shape type device = (.ok t, w')) :
    t.RowMajor := by
  have halloc := w.allocShape_allocated shape type device
  rw [h] at halloc
  cases halloc with
  | empty numel canonical =>
    obtain ⟨rfl, -⟩ := Layout.distance_canonical canonical
    exact canonical
  | make made => exact made.owns.canonical

/-- What is written after it was made is the same tensor. -/
private theorem eq_of_settle {t' : Tensor} {o : Result Unit × Context} (h : w.settle t' o = (.ok t, w')) : t' = t := by
  obtain ⟨r, c⟩ := o
  cases r with
  | error e => simp [settle] at h
  | ok _ => exact Except.ok.inj (Prod.mk.inj h).1

private theorem rowMajor_alloc (h : w.alloc extents type device = (.ok t, w')) : t.RowMajor := by
  unfold alloc at h
  split at h
  · exact rowMajor_allocShape h
  · simp at h

private theorem rowMajor_ofList {data : List (BitVec type.width)}
    (h : w.ofList type data extents device = (.ok t, w')) :
    t.RowMajor := by
  unfold ofList at h
  split at h
  · simp at h
  · split at h
    · simp at h
    · split at h
      · simp [Result.reject] at h
      · split at h
        · simp at h
        · rename_i halloc
          obtain rfl := eq_of_settle h
          exact rowMajor_allocShape halloc

private theorem rowMajor_ofScalar {value : Scalar} (h : w.ofScalar value device = (.ok t, w')) : t.RowMajor := by
  unfold ofScalar at h
  split at h
  · simp at h
  · rename_i halloc
    split at h
    · obtain rfl := Except.ok.inj (Prod.mk.inj h).1
      exact rowMajor_allocShape halloc
    · simp at h

private theorem rowMajor_wrap {address : Address} {contents : Bytes}
    (h : w.wrap address contents extents type device = (.ok t, w')) : t.RowMajor := by
  unfold wrap at h
  simp only at h
  split at h
  · simp at h
  · split at h
    · simp at h
    · split at h
      · simp [Result.reject] at h
      · exact Tensor.rowMajor_borrowed (Prod.mk.inj h).1

private theorem rowMajor_duplicate {source : Tensor} (h : w.duplicate source device = (.ok t, w')) : t.RowMajor := by
  unfold duplicate at h
  split at h
  · simp at h
  · rename_i halloc
    obtain rfl := eq_of_settle h
    exact rowMajor_allocShape halloc

end Workspace

namespace Tensor

/-- The tensor comes from one of the operations that make tensors and not views. -/
inductive Created : Tensor → Prop
  | null {t : Tensor} {extents : List Nat} {type : ElementType} {device : Device}
      (h : null extents type device = .ok t) : Created t
  | alloc {t : Tensor} {w w' : Workspace} {extents : List Nat} {type : ElementType} {device : Device}
      (h : w.alloc extents type device = (.ok t, w')) : Created t
  | ofList {t : Tensor} {w w' : Workspace} {type : ElementType} {data : List (BitVec type.width)}
      {extents : List Nat} {device : Device} (h : w.ofList type data extents device = (.ok t, w')) : Created t
  | ofScalar {t : Tensor} {w w' : Workspace} {value : Scalar} {device : Device}
      (h : w.ofScalar value device = (.ok t, w')) : Created t
  | wrap {t : Tensor} {w w' : Workspace} {address : Address} {contents : Bytes} {extents : List Nat}
      {type : ElementType} {device : Device} (h : w.wrap address contents extents type device = (.ok t, w')) : Created t
  | contiguous {t source : Tensor} {w w' : Workspace} (h : w.contiguous source = (.ok t, w')) : Created t

theorem Created.rowMajor {t : Tensor} (h : Created t) : t.RowMajor := by
  cases h with
  | null h =>
    obtain ⟨shape, -, h⟩ := Result.bind_eq_ok.1 h
    exact rowMajor_borrowed h
  | alloc h => exact Workspace.rowMajor_alloc h
  | ofList h => exact Workspace.rowMajor_ofList h
  | ofScalar h => exact Workspace.rowMajor_ofScalar h
  | wrap h => exact Workspace.rowMajor_wrap h
  | contiguous h => exact Workspace.rowMajor_duplicate h

/-- A tensor that has been made, and any view of it that was reached without `asStrided` and `expand`, has strides of
zero along no dimension of extent greater than one, if there are elements, or if no dimension of extent zero comes after
one of extent greater than one in its shape and in those that it was reshaped to. This is necessary where the row-major
layout is made. In any tensor with elements a stride of zero puts two of them in one place, and without elements there
is no index. -/
theorem advances_of_created (t : Tensor) :
    (Created t → (t.isBroadcast = false ↔ Shape.ZerosFirst t.shape.toList) ∧
      ∀ {ops v}, (∀ op ∈ ops, op.repeats = false) → ViewOp.applyAll ops t = .ok v →
        (0 < v.shape.toList.prod ∨ Shape.ZerosFirst t.shape.toList ∧
          ∀ extents, .reshape extents ∈ ops → Shape.ZerosFirst extents) →
        (∀ a ∈ v.layout.axes, 1 < a.1 → a.2 ≠ 0) ∧ v.isBroadcast = false) ∧
    (∀ {extents v}, t.reshape extents = .ok v → (v.isBroadcast = false ↔ Shape.ZerosFirst extents)) ∧
    (t.isBroadcast = true → 0 < t.shape.toList.prod →
      ∃ index index', index ≠ index' ∧ List.Forall₂ (· < ·) index t.shape.toList ∧
        List.Forall₂ (· < ·) index' t.shape.toList ∧ t.elementOffset index = t.elementOffset index' ∧
        (t.offset < Word.limit → t.elementOffset index = .ok t.offset)) ∧
    (t.shape.toList.prod = 0 → ∀ index, ¬ List.Forall₂ (· < ·) index t.shape.toList) := by
  refine ⟨fun ht => ⟨?_, fun {ops v} hops h hzeros => ?_⟩, fun {extents v} h => ?_, exists_sameOffset,
    fun hempty index hi => ?_⟩
  · exact Layout.isBroadcast_eq_false.trans ht.rowMajor.advances
  · have hviews := (views_applyAll (fun op hop => ViewOp.keepsElements_of_repeats (hops op hop)) h).1
    have hstart : Shape.ZerosFirst t.shape.toList := by
      rcases hzeros with hpos | ⟨hstart, -⟩
      · exact Shape.zerosFirst_of_pos (Shape.prod_pos_of_below (hviews.below (Shape.zeros_below hpos)))
      · exact hstart
    have hadvances := advances_applyAll hops h (ht.rowMajor.advances.2 hstart) (hzeros.imp_right And.right)
    exact ⟨hadvances, Layout.isBroadcast_eq_false.2 hadvances⟩
  · obtain ⟨hrow, rfl⟩ := rowMajor_reshape h
    exact Layout.isBroadcast_eq_false.trans hrow.advances
  · exact (Shape.prod_pos_of_below hi).ne' hempty

/-- No rows of three become three columns and then no rows of two; and one row is repeated. -/
theorem advances_noRows : ∃ t v row rows, Created t ∧
    (∀ op ∈ [ViewOp.slice 0 1 1, .transpose, .reshape [0, 2]], op.repeats = false) ∧
    ViewOp.applyAll [.slice 0 1 1, .transpose, .reshape [0, 2]] t = .ok v ∧ Shape.ZerosFirst t.shape.toList ∧
    v.isBroadcast = false ∧ null [1, 3] .f32 .cpu = .ok row ∧ row.expand [2, 3] = .ok rows ∧ rows.isBroadcast = true ∧
    0 < rows.shape.toList.prod ∧
    ∃ index index', index ≠ index' ∧ rows.elementOffset index = rows.elementOffset index' := by
  obtain ⟨t, v, ht, hv, hstart⟩ : ∃ t v, null [2, 3] .f32 .cpu = .ok t ∧
      ViewOp.applyAll [.slice 0 1 1, .transpose, .reshape [0, 2]] t = .ok v ∧ Shape.ZerosFirst t.shape.toList :=
    ⟨_, _, rfl, rfl, Shape.zerosFirst_of_pos (by decide)⟩
  obtain ⟨row, rows, hrow, hrows, hbroadcast, hpos⟩ : ∃ row rows, null [1, 3] .f32 .cpu = .ok row ∧
      row.expand [2, 3] = .ok rows ∧ rows.isBroadcast = true ∧ 0 < rows.shape.toList.prod :=
    ⟨_, _, rfl, rfl, rfl, by decide⟩
  have hops : ∀ op ∈ [ViewOp.slice 0 1 1, .transpose, .reshape [0, 2]], op.repeats = false := by decide
  have hextents : ∀ extents, .reshape extents ∈ [ViewOp.slice 0 1 1, .transpose, .reshape [0, 2]] →
      Shape.ZerosFirst extents := by
    intro extents hmem
    obtain rfl : extents = [0, 2] := by simpa using hmem
    simp [Shape.ZerosFirst]
  obtain ⟨index, index', hne, -, -, hsame, -⟩ := (advances_of_created rows).2.2.1 hbroadcast hpos
  have hadvances := (((advances_of_created t).1 (.null ht)).2 hops hv (.inr ⟨hstart, hextents⟩)).2
  exact ⟨t, v, row, rows, .null ht, hops, hv, hstart, hadvances, hrow, hrows, hbroadcast, hpos, index, index', hne,
    hsame⟩

end Tensor

/-- Two rows without columns repeat one another, although there is no element to repeat. -/
theorem Session.noColumns_isBroadcast : ∃ s t,
    initial.performAll [.build {}, .command 0 (.alloc "t" [2, 0] .f32 .cpu)] = some s ∧ s.tensor? "t" = some t ∧
      t.layout.axes = [(2, 0), (0, 4)] ∧ t.isBroadcast = true ∧
      ∀ index, ¬ List.Forall₂ (· < ·) index t.shape.toList := by
  refine ⟨_, _, rfl, rfl, rfl, rfl, fun index hi => ?_⟩
  exact absurd (Shape.prod_pos_of_below hi) (by decide)

end StridedTensor
