import StridedTensor.Proofs.Reshaping
import StridedTensor.Proofs.Rows
import StridedTensor.Proofs.Slicing

/-!
# Reductions of rows

To reduce a tensor along its last dimension is to reduce each row by itself (`Context.reduceLast_eq_reduceAll`): the rows
are the slices of the flattened tensor, and each element of the output is the scalar that the reduction of a slice would
have yielded before the call. It does not matter whether the output shares bytes with the rows, or whether these are
empty, although the two reductions treat that apart.
-/

namespace StridedTensor

/-! ### Slices of a flattened tensor -/

private theorem Layout.canonical_singleton {s : Shape} {t : ElementType} {n : Nat} (hs : s.toList = [n])
    (hfit : t.size * n < Word.limit) : ∃ l, canonical s t = .ok l ∧ l.axes = [(n, t.size)] := by
  have hrank : [t.size].length = s.rank := by rw [← Dims.length_toList, hs, List.length_singleton, List.length_singleton]
  have hrow : Shape.rowMajor? t.size [n] = some ([t.size], t.size * n) := by simp [Shape.rowMajor?, Word.mul?, hfit]
  refine ⟨ofEntries s [t.size], ?_, by rw [axes_ofEntries hrank, hs]; rfl⟩
  unfold canonical
  rw [hs, hrow]
  rfl

namespace Tensor

variable {x v : Tensor} {n start stop count : Nat}

/-- `v` has `count` elements of `x` for its elements, which follow one another from the position `start` on. -/
structure RangeOf (v x : Tensor) (start count : Nat) : Prop where
  buffer : v.buffer = x.buffer
  type : v.type = x.type
  device : v.device = x.device
  borrowed : v.ownership = false
  offset : v.offset = x.offset + x.type.size * start
  axes : v.layout.axes = [(count, x.type.size)]

theorem exists_rangeOf (hc : x.isContiguous = .ok true) (hn : x.numel = .ok n)
    (hfit : x.offset + x.type.size * n < Word.limit) (hle : start ≤ stop) (hstop : stop ≤ n) :
    ∃ flat v, x.flatten = .ok flat ∧ flat.slice 0 start stop = .ok v ∧ v.RangeOf x start (stop - start) := by
  obtain ⟨shape, hshape⟩ : ∃ shape : Shape, Dims.ofList [n] = .ok shape := Dims.exists_ofList (by
    rw [List.length_singleton]
    decide)
  have htoList := Dims.toList_ofList hshape
  obtain ⟨l, hl, haxes⟩ := Layout.canonical_singleton (t := x.type) htoList (by omega)
  have hshape' : shape.numel = .ok n := by
    refine Result.ofWord?_eq_ok.2 ?_
    rw [htoList]
    have := Word.product?_lt (Result.ofWord?_eq_ok.1 hn)
    simp [Word.product?, Word.mul?, this]
  have hflat : x.flatten = .ok (x.withLayout l) := by
    rw [flatten_eq hn, reshape_eq_ok]
    exact ⟨shape, hshape, reshapeTo_eq_ok.2 ⟨hc, n, l, hshape', hn, hl, rfl⟩⟩
  have hrank : l.rank = 1 := by rw [← Layout.length_axes, haxes, List.length_singleton]
  have hextent : l.shape.entry 0 = n := by rw [Dims.entry_eq_getD, ← Layout.map_fst_axes, haxes]; rfl
  have hstride : l.strides.entry 0 = x.type.size := by rw [Dims.entry_eq_getD, ← Layout.map_snd_axes, haxes]; rfl
  have hplace : x.type.size * start ≤ x.type.size * n := Nat.mul_le_mul_left _ (hle.trans hstop)
  refine ⟨_, _, hflat, slice_eq_ok.2 ⟨canSlice_iff.2 ⟨?_, hle, ?_⟩, ?_, rfl⟩, rfl, rfl, rfl, rfl, ?_, ?_⟩
  · show 0 < l.rank
    omega
  · show stop ≤ l.shape.entry 0
    omega
  · show x.offset + start * l.strides.entry 0 < Word.limit
    rw [hstride, Nat.mul_comm]
    omega
  · show x.offset + start * l.strides.entry 0 = _
    rw [hstride, Nat.mul_comm]
  · show (l.resize 0 (stop - start)).axes = _
    rw [Layout.axes_resize (by omega), haxes, hstride]
    rfl

namespace RangeOf

variable (h : v.RangeOf x start count)
include h

private theorem shape : v.shape.toList = [count] := by
  have hmap := v.layout.map_fst_axes
  rw [h.axes] at hmap
  exact hmap.symm

private theorem prod_eq : v.shape.toList.prod = count := by rw [h.shape, List.prod_singleton]

private theorem numel (hlt : count < Word.limit) : v.numel = .ok count := by
  refine Result.ofWord?_eq_ok.2 ?_
  rw [h.shape]
  simp [Word.product?, Word.mul?, hlt]

private theorem isContiguous (hfit : x.type.size * count < Word.limit) : v.isContiguous = .ok true := by
  have hpos := x.type.size_pos
  have hlt : count < Word.limit := (Nat.le_mul_of_pos_left count hpos).trans_lt hfit
  unfold Tensor.isContiguous Layout.isContiguous Layout.isPacked
  rw [show v.layout.shape.numel = .ok count from h.numel hlt, Result.ok_bind, h.axes, h.type]
  by_cases h0 : count = 0
  · rw [if_pos h0]
    rfl
  · rw [if_neg h0, List.reverse_singleton, Layout.packed?]
    by_cases h1 : count = 1
    · rw [if_pos h1]
      rfl
    · rw [if_neg h1, if_neg (by simp), Word.mul?_eq_some.2 ⟨hfit, rfl⟩]
      rfl

private theorem span (hpos : 0 < count) (hfit : x.offset + x.type.size * (start + count) < Word.limit) :
    v.span = .ok ⟨v.offset, x.offset + x.type.size * (start + count)⟩ := by
  have hsize := x.type.size_pos
  have hlt : count ≤ x.type.size * count := Nat.le_mul_of_pos_left count hsize
  rw [Nat.mul_add] at hfit ⊢
  have hlast : Layout.lastDistance v.layout.axes + v.type.size = x.type.size * count := by
    rw [h.axes, h.type, Layout.lastDistance_cons, Layout.lastDistance_nil]
    show (count - 1) * x.type.size + 0 + x.type.size = _
    rw [Nat.add_zero, ← Nat.succ_mul, Nat.succ_eq_add_one, Nat.sub_add_cancel hpos, Nat.mul_comm]
  have hoffset := h.offset
  exact (span_eq_ok_of_pos (h.numel (by omega)) hpos).2 ⟨by omega, by rw [Span.mk.injEq]; omega⟩

end RangeOf

end Tensor

namespace Context

open Kernel

variable {c c' : Context} {t : FloatType} {x v output : Tensor} {start count : Nat}

private theorem Ready.stop_lt (h : c.Ready t x) (hpos : 0 < x.shape.toList.prod) :
    x.offset + t.element.size * x.shape.toList.prod < Word.limit := by
  have hs := h.span_eq
  obtain ⟨n, hn⟩ := Tensor.numel_of_span hs
  obtain ⟨hfit, hstop⟩ := (Tensor.span_eq_ok_of_pos hn (by rwa [Tensor.numel_eq hn])).1 hs
  rw [Span.mk.injEq] at hstop
  omega

/-- Elements of a tensor that a kernel can read can be read by themselves. -/
theorem ready_rangeOf (h : v.RangeOf x start count) (hx : c.Ready t x) (hpos : 0 < count)
    (hle : start + count ≤ x.shape.toList.prod) :
    c.Ready t v ∧ (c.floats t v).toList = ((c.floats t x).toList.drop start).take count := by
  have hstop : t.element.size * (start + count) ≤ t.element.size * x.shape.toList.prod := Nat.mul_le_mul_left _ hle
  have hlimit := hx.stop_lt (by omega)
  have hspan := h.span hpos (by rw [hx.type]; omega)
  have hsize : t.element.size * count ≤ t.element.size * (start + count) := Nat.mul_le_mul_left _ (by omega)
  obtain ⟨hvalid, hbuffer⟩ := validate_iff.1 hx.valid
  obtain ⟨hcpu, -⟩ := Tensor.validate_eq_ok.1 hvalid
  refine ⟨⟨validate_iff.2 ⟨Tensor.validate_eq_ok.2 ⟨?_, fun hnone => ?_, fun howned => ?_, _, hspan⟩, fun id hid => ?_⟩,
    h.isContiguous (by rw [hx.type]; omega), h.type.trans hx.type⟩, ?_⟩
  · rw [h.device]
    exact hcpu
  · have := hx.prod_eq_zero (h.buffer.symm.trans hnone)
    omega
  · simp [h.borrowed] at howned
  · obtain ⟨b, s, hb, hd, hs, hb'⟩ := hbuffer id (h.buffer.symm.trans hid)
    obtain rfl := Except.ok.inj (hs.symm.trans hx.span_eq)
    refine ⟨b, _, hb, hd.trans h.device.symm, hspan, ?_⟩
    simp only [hx.type] at hb' ⊢
    omega
  · apply List.ext_getElem?
    intro k
    rw [List.getElem?_take, List.getElem?_drop, Array.getElem?_toList, Array.getElem?_toList]
    unfold floats
    rw [h.prod_eq, Bytes.getElem?_floats, Bytes.getElem?_floats, h.offset, hx.type]
    by_cases hk : k < count
    · rw [if_pos hk, if_pos hk, if_pos (by omega), Nat.mul_add, Nat.add_assoc]
      unfold contents
      rw [h.buffer]
    · rw [if_neg hk, if_neg hk]

/-! ### The reduction of a range -/

theorem reduceAll_of_ready (hv : c.Ready t v) (hpos : 0 < v.shape.toList.prod)
    (haligned : ∀ id b, v.buffer = some id → c.arena.get? id = some b → (b.address + v.offset) % t.element.alignment = 0)
    (op : ReduceOp) :
    c.reduceAll op v = .ok (Scalar.ofBinary t (t.narrow (op.reduce ((c.floats t v).toList.map t.widen)))) := by
  obtain ⟨hcpu, -⟩ := Tensor.validate_eq_ok.1 (validate_iff.1 hv.valid).1
  obtain ⟨n, hn⟩ := Tensor.numel_of_span hv.span_eq
  cases hid : v.buffer with
  | none => rw [hv.prod_eq_zero hid] at hpos; omega
  | some id =>
    obtain ⟨b, -, hb, hcheck, -⟩ := buffer_of_validate hv.valid hid
    have hborrow := hv.borrow_eq hid hb
    rw [if_pos (haligned id b hid hb)] at hborrow
    unfold reduceAll
    rw [checkOperand_eq_ok.2 ⟨hcpu, hv.contiguous⟩, Result.ok_bind, checkFloat_eq_ok.2 hv.type, Result.ok_bind, hn,
      Result.ok_bind, if_neg (by rw [Tensor.numel_eq hn]; omega), hcheck, Result.ok_bind, hv.span_eq]
    simp only [Result.ok_bind, hborrow]
    rfl

theorem reduceAll_of_empty (hcpu : v.device.isCpu = true) (hc : v.isContiguous = .ok true) (htype : v.type = t.element)
    (hn : v.numel = .ok 0) (op : ReduceOp) : c.reduceAll op v = .ok (Scalar.ofNat t.element 0) := by
  have hzero : Scalar.zero t.element = Scalar.ofNat t.element 0 := by cases t <;> decide
  unfold reduceAll
  rw [checkOperand_eq_ok.2 ⟨hcpu, hc⟩, Result.ok_bind, checkFloat_eq_ok.2 htype, Result.ok_bind, hn, Result.ok_bind,
    if_pos rfl, htype, hzero]
  rfl

/-- After a reduction of rows that was not skipped, each element of the output is what the reduction of the row by itself
would have yielded before, if the operand is aligned for its type. Offsets are numbers of 64 bits. -/
theorem reduceLast_eq_reduceAll {op : ReduceOp} (h : c.launch (.reduceLast op x output) = (.ok (), c'))
    (hskip : ¬ c.Skips (.reduceLast op x output)) (hoffset : x.offset < Word.limit)
    (haligned : ∀ id b, x.buffer = some id → c.arena.get? id = some b → (b.address + x.offset) % x.type.alignment = 0) :
    ∃ outers inner, x.shape.toList = outers ++ [inner] ∧ output.shape.toList.prod = outers.prod ∧
      ∀ r < outers.prod, ∃ flat v value, x.flatten = .ok flat ∧ flat.slice 0 (r * inner) ((r + 1) * inner) = .ok v ∧
        c.reduceAll op v = .ok value ∧ c'.get output (Shape.indexAt output.shape.toList r) = .ok value := by
  obtain ⟨t, outers, inner, hrows, -, hwritten⟩ := launch_reduceLast h hskip
  refine ⟨outers, inner, hrows.shape, hrows.count, fun r hr => ?_⟩
  obtain ⟨hx, hget⟩ := hwritten r hr
  obtain ⟨n, hn⟩ := Tensor.numel_of_span hx.span_eq
  obtain rfl := Tensor.numel_eq hn
  have hstop : (r + 1) * inner ≤ x.shape.toList.prod := hrows.prod_eq ▸ Nat.mul_le_mul_right inner hr
  have hfit : x.offset + x.type.size * x.shape.toList.prod < Word.limit := by
    rcases Nat.eq_zero_or_pos x.shape.toList.prod with h0 | hpos
    · rwa [h0, Nat.mul_zero, Nat.add_zero]
    · rw [hx.type]
      exact hx.stop_lt hpos
  obtain ⟨flat, v, hflat, hslice, hrange⟩ :=
    Tensor.exists_rangeOf hx.contiguous hn hfit (Nat.mul_le_mul_right inner (Nat.le_add_right r 1)) hstop
  rw [← Nat.sub_mul, Nat.add_sub_cancel_left, Nat.one_mul] at hrange
  refine ⟨flat, v, _, hflat, hslice, ?_, hget⟩
  by_cases hinner : inner = 0
  · -- both yield zero, each for a reason of its own
    subst hinner
    obtain ⟨hcpu, -⟩ := Tensor.validate_eq_ok.1 (validate_iff.1 hx.valid).1
    rw [if_pos rfl]
    exact reduceAll_of_empty (by rwa [hrange.device]) (hrange.isContiguous (by rw [Nat.mul_zero]; decide))
      (hrange.type.trans hx.type) (hrange.numel (by decide)) op
  · have hpos := Nat.pos_of_ne_zero hinner
    obtain ⟨hv, hfloats⟩ := ready_rangeOf hrange hx hpos (by rw [Nat.succ_mul] at hstop; exact hstop)
    rw [if_neg hinner, row, ← hfloats]
    refine reduceAll_of_ready hv (by rwa [hrange.prod_eq]) (fun id b hid hb => ?_) op
    -- a row begins a number of elements after the first one
    have hmod := haligned id b (hrange.buffer.symm.trans hid) hb
    rw [hx.type] at hmod
    rw [hrange.offset, hx.type, ← Nat.add_assoc]
    exact (Nat.add_mul_mod_self_left _ t.element.alignment _).trans hmod

/-- The sums of two rows of two floats, written over the last float of the first row and the first one of the second. -/
theorem reduceLast_eq_reduceAll_oneToFour :
    ∃ c', oneToFour.launch (.reduceLast .sum (floatsFrom 0 [2, 2] [8, 4]) (floatsFrom 1 [2] [4])) = (.ok (), c') ∧
      ∃ outers inner, (floatsFrom 0 [2, 2] [8, 4]).shape.toList = outers ++ [inner] ∧
        (floatsFrom 1 [2] [4]).shape.toList.prod = outers.prod ∧
        ∀ r < outers.prod, ∃ flat v value, (floatsFrom 0 [2, 2] [8, 4]).flatten = .ok flat ∧
          flat.slice 0 (r * inner) ((r + 1) * inner) = .ok v ∧ oneToFour.reduceAll .sum v = .ok value ∧
          c'.get (floatsFrom 1 [2] [4]) (Shape.indexAt (floatsFrom 1 [2] [4]).shape.toList r) = .ok value := by
  have hlaunch :
      (oneToFour.launch (.reduceLast .sum (floatsFrom 0 [2, 2] [8, 4]) (floatsFrom 1 [2] [4]))).1 = .ok () := rfl
  refine ⟨_, Prod.ext hlaunch rfl, reduceLast_eq_reduceAll (Prod.ext hlaunch rfl) (fun hskip => ?_) (by decide) ?_⟩
  · exact absurd hskip.1 (by decide)
  · rintro id b ⟨⟩ ⟨⟩
    rfl

end Context

end StridedTensor
