import StridedTensor.Proofs.Acceptance
import StridedTensor.Proofs.Assignment
import StridedTensor.Proofs.Operand
import StridedTensor.Proofs.Stale

/-!
# Kernels on rows

A reduction along the last dimension and the search for the greatest element write one element for each row. What they
write is computed from the rows as they were before the call (`Context.launch_reduceLast`, `Context.launch_argmax`),
also where the output lies in the middle of them, because the operand is read in full beforehand.
-/

namespace StridedTensor

/-! ### Stored patterns -/

/-- A pattern is read back without the bits that do not fit, as it is when a scalar is made of it. -/
private theorem ElementType.decode_ofNat {t : ElementType} (ht : t ≠ .bool) (n : Nat) :
    t.decode (Bytes.ofNat t.size n) = BitVec.ofNat t.width n := by
  apply BitVec.eq_of_toNat_eq
  simp only [decode, if_neg ht, Bytes.toNat_ofNat, BitVec.toNat_ofNat, two_pow_width ht, Nat.mod_mod]

private theorem Bytes.slice_write_store {t : ElementType} {block : Bytes} {start k n : Nat} {patterns : List Nat}
    (hle : start + t.size * patterns.length ≤ block.size) (hk : patterns[k]? = some n) :
    (block.write start (Kernel.store t patterns)).slice (start + t.size * k) t.size = ofNat t.size n := by
  have hlength := length_store (t := t) patterns
  have hroom : t.size * k + t.size ≤ t.size * patterns.length := by
    rw [← Nat.mul_succ]
    exact Nat.mul_le_mul_left _ (List.getElem?_eq_some_iff.1 hk).1
  rw [slice_write (by omega) (by omega), Kernel.store, drop_take_flatMap fun x => length_ofNat _ x]
  rw [hk]
  rfl

/-! ### Shapes -/

namespace Kernel

variable {x output : Tensor} {t : FloatType} {outer inner : Nat}

private theorem rowsOf_eq_ok (h : rowsOf x = .ok (outer, inner)) :
    ∃ outers, x.shape.toList = outers ++ [inner] ∧ outers.prod = outer := by
  unfold rowsOf at h
  split at h
  · rename_i last hlast
    obtain ⟨m, hm, h⟩ := Result.bind_eq_ok.1 h
    obtain ⟨rfl, rfl⟩ : m = outer ∧ last = inner := by simpa using h
    obtain ⟨outers, houters⟩ := List.getLast?_eq_some_iff.1 hlast
    rw [houters, List.dropLast_concat, Result.ofWord?_eq_ok] at hm
    exact ⟨outers, houters, (Word.product?_eq hm).symm⟩
  · simp at h

/-- The operand of a kernel on rows, and an output with an element for each of them. -/
structure Rowwise (x output : Tensor) (t : FloatType) (outers : List Nat) (inner : Nat) : Prop where
  shape : x.shape.toList = outers ++ [inner]
  count : output.shape.toList.prod = outers.prod
  type : x.type = t.element
  contiguous : x.isContiguous = .ok true ∧ output.isContiguous = .ok true

theorem Rowwise.prod_eq {outers : List Nat} (h : Rowwise x output t outers inner) :
    x.shape.toList.prod = outers.prod * inner := by
  rw [h.shape, List.prod_append, List.prod_singleton]

private theorem checkRows_rowwise (h : checkRows x output = .ok (t, outer, inner)) :
    ∃ outers, outers.prod = outer ∧ Rowwise x output t outers inner := by
  obtain ⟨hx, ho, ht⟩ := checkRows_eq_ok h
  have hnumel := Context.numel_of_checkRows h
  unfold checkRows at h
  simp only [Result.bind_eq_ok] at h
  obtain ⟨_, -, _, -, t', -, ⟨m, k⟩, hrows, n, -, h⟩ := h
  by_cases hne : n = m
  · simp only [hne, ne_eq, not_true, if_false, Result.pure_eq_ok, Prod.mk.injEq] at h
    obtain ⟨-, rfl, rfl⟩ := h
    obtain ⟨outers, hshape, rfl⟩ := rowsOf_eq_ok hrows
    exact ⟨outers, rfl, hshape, (Tensor.numel_eq hnumel).symm, ht, hx, ho⟩
  · simp [hne] at h

end Kernel

/-! ### What is written -/

namespace Context

open Kernel

variable {c c' : Context} {x output : Tensor} {t : FloatType} {outers : List Nat} {inner : Nat}

/-- The elements of row `r`, for rows of `inner` elements. -/
def row (c : Context) (t : FloatType) (x : Tensor) (inner r : Nat) : List (Binary t.format) :=
  ((c.floats t x).toList.drop (r * inner)).take inner

theorem getElem?_row {r k : Nat} (hx : c.Ready t x) (hk : k < inner) :
    (c.row t x inner r)[k]? = c.element? t x (r * inner + k) := by
  rw [element?_eq hx, row, List.getElem?_take_of_lt hk, List.getElem?_drop, Array.getElem?_toList]

theorem length_row {r : Nat} (hrows : Rowwise x output t outers inner) (hr : r < outers.prod) :
    (c.row t x inner r).length = inner := by
  have hle : (r + 1) * inner ≤ outers.prod * inner := Nat.mul_le_mul_right inner hr
  rw [Nat.succ_mul] at hle
  rw [row, List.length_take, List.length_drop, Array.length_toList, size_floats, hrows.prod_eq]
  omega

private theorem getElem?_rows {xs : List (Binary t.format)} {count r : Nat} (hxs : xs.length = count * inner)
    (hinner : inner ≠ 0)
    (hr : r < count) : ((rows inner xs).take count)[r]? = some ((xs.drop (r * inner)).take inner) := by
  unfold rows
  rw [hxs, Nat.mul_div_cancel _ (Nat.pos_of_ne_zero hinner), List.getElem?_take_of_lt hr, getElem?_chunks _ _ _ _ hr]

/-- The patterns of the elements for the first `count` rows. -/
def patterns (c : Context) (t : FloatType) (x : Tensor) (inner count : Nat) (f : List (Binary t.format) → Nat) :
    List Nat :=
  if inner = 0 then List.replicate count 0 else ((rows inner (c.floats t x).toList).take count).map f

private theorem length_patterns_le (c : Context) (t : FloatType) (x : Tensor) (inner count : Nat)
    (f : List (Binary t.format) → Nat) : (c.patterns t x inner count f).length ≤ count := by
  unfold patterns
  split
  · rw [List.length_replicate]
  · rw [List.length_map]
    exact List.length_take_le _ _

private theorem getElem?_patterns {r : Nat} (f : List (Binary t.format) → Nat) (hrows : Rowwise x output t outers inner)
    (hr : r < outers.prod) : (c.patterns t x inner outers.prod f)[r]? =
      some (if inner = 0 then 0 else f (c.row t x inner r)) := by
  unfold patterns
  by_cases hinner : inner = 0
  · rw [if_pos hinner, if_pos hinner, List.getElem?_replicate, if_pos hr]
  · have hxs : (c.floats t x).toList.length = outers.prod * inner := by
      rw [Array.length_toList, size_floats, hrows.prod_eq]
    rw [if_neg hinner, if_neg hinner, List.getElem?_map, getElem?_rows hxs hinner hr]
    rfl

/-- The element for each row is what `f` makes of the row, or zero if the rows are empty. -/
private theorem writeRows_eq_ok {type : ElementType} {f : List (Binary t.format) → Nat}
    (hrows : Rowwise x output t outers inner)
    (hot : output.type = type) (hbool : type ≠ .bool) (h : c.writeRows t type x output inner f = (.ok (), c')) :
    c.Ready t x ∧ ∀ r < outers.prod, c'.get output (Shape.indexAt output.shape.toList r) =
      .ok (Scalar.ofNat type (if inner = 0 then 0 else f (c.row t x inner r))) := by
  have hout := hrows.count
  obtain ⟨hxc, hoc⟩ := hrows.contiguous
  unfold writeRows at h
  cases hv : c.validate x with
  | error e => simp [hv] at h
  | ok _ =>
    rw [hv] at h
    obtain ⟨id, b, contents, hvo, hid, hb, hrun, rfl⟩ := withOutput_eq_ok h
    have hx : c.Ready t x := ⟨hv, hxc, hrows.type⟩
    refine ⟨hx, fun r hr => ?_⟩
    -- the operand is read in full, as an array that no write changes
    obtain ⟨operand, hresolve, hrun⟩ := Result.bind_eq_ok.1 hrun
    obtain rfl : operand = .elements (c.floats t x) := by
      rcases resolve_staged hx hvo hid hb with hread | hmisaligned
      · exact Except.ok.inj (hresolve.symm.trans hread)
      · simp [hmisaligned] at hresolve
    obtain ⟨⟨span, bytes⟩, hbytes, hrun⟩ := Result.bind_eq_ok.1 hrun
    obtain ⟨hspan, hlength⟩ := outputBytes_eq_ok hbytes
    obtain rfl := Tensor.span_of_isContiguous hoc hspan
    rw [Span.length, Nat.add_sub_cancel_left, hot, hout] at hlength
    simp only [hlength, Nat.mul_div_cancel_left _ type.size_pos, Operand.toArray, Result.pure_eq_ok] at hrun
    change b.contents.write output.offset (store type (c.patterns t x inner outers.prod f)) = contents at hrun
    obtain ⟨b', s, hb', -, -, hs, hle⟩ := buffer_of_validate hvo hid
    obtain rfl : b = b' := Option.some.inj (hb.symm.trans hb')
    obtain rfl := Tensor.span_of_isContiguous hoc hs
    subst hot
    have hcount := length_patterns_le c t x inner outers.prod f
    have hroom : output.offset + output.type.size * (c.patterns t x inner outers.prod f).length ≤ b.contents.size :=
      (Nat.add_le_add_left (Nat.mul_le_mul_left _ (hcount.trans_eq hout.symm)) _).trans hle
    have hsize : contents.size = (c.contents output).size := by rw [← hrun, Bytes.size_write, contents_eq hid hb]
    have hnew := hosts_setContents hvo hid hb hsize
    have hr' : r < output.shape.toList.prod := by rwa [hout]
    rw [hnew.get (Shape.indexAt_below (by omega) r), Tensor.place_of_isContiguous hoc hr', ← hrun,
      Bytes.slice_write_store hroom (getElem?_patterns f hrows hr), ElementType.decode_ofNat hbool]
    rfl

/-! ### Calls -/

/-- Both kernels check the rows and then one more thing, `second`; without rows there is nothing to do. -/
private theorem runKernel_rows {κ σ : Type} (hs : c.strict = true) {second : Result κ} {k : FloatType → κ → Nat → σ}
    {kernel : σ → Result Unit × Context} (h : c.runKernel (do
      let (t, outer, inner) ← checkRows x output
      let a ← second
      return if outer = 0 then none else some (k t a inner)) kernel = (.ok (), c')) :
    ∃ t outers inner a, Rowwise x output t outers inner ∧ second = .ok a ∧
      (0 < outers.prod → kernel (k t a inner) = (.ok (), c')) := by
  rcases (runKernel_eq_ok hs).1 h with ⟨hplan, -⟩ | ⟨found, hplan, hrun⟩
  · obtain ⟨⟨t, outer, inner⟩, hcheck, hplan⟩ := Result.bind_eq_ok.1 hplan
    obtain ⟨a, ha, hplan⟩ := Result.bind_eq_ok.1 hplan
    obtain ⟨outers, rfl, hrows⟩ := checkRows_rowwise hcheck
    refine ⟨t, outers, inner, a, hrows, ha, fun hpos => ?_⟩
    simp [hpos.ne'] at hplan
  · obtain ⟨⟨t, outer, inner⟩, hcheck, hplan⟩ := Result.bind_eq_ok.1 hplan
    obtain ⟨a, ha, hplan⟩ := Result.bind_eq_ok.1 hplan
    obtain ⟨outers, rfl, hrows⟩ := checkRows_rowwise hcheck
    refine ⟨t, outers, inner, a, hrows, ha, fun hpos => ?_⟩
    obtain rfl : k t a inner = found := by simpa [hpos.ne'] using hplan
    exact hrun

/-- A reduction of rows that was not skipped: what it has written. -/
theorem launch_reduceLast {op : ReduceOp} (h : c.launch (.reduceLast op x output) = (.ok (), c'))
    (hskip : ¬ c.Skips (.reduceLast op x output)) :
    ∃ t outers inner, Rowwise x output t outers inner ∧ output.type = t.element ∧ ∀ r < outers.prod, c.Ready t x ∧
      c'.get output (Shape.indexAt output.shape.toList r) = .ok (Scalar.ofNat t.element
        (if inner = 0 then 0 else (t.narrow (op.reduce ((c.row t x inner r).map t.widen))).toNat)) := by
  have hstrict : c.strictly.reduceLast op x output = (.ok (), c'.strictly) := launch_strictly h hskip
  obtain ⟨t, outers, inner, _, hrows, htype, hrun⟩ := runKernel_rows (k := fun t _ inner => (t, inner)) rfl hstrict
  have hot : output.type = t.element := (checkType_eq_ok.1 htype).symm.trans hrows.type
  refine ⟨t, outers, inner, hrows, hot, fun r hr => ?_⟩
  obtain ⟨hx, hwritten⟩ := writeRows_eq_ok hrows hot (by cases t <;> decide) (hrun (by omega))
  exact ⟨⟨hx.valid, hx.contiguous, hx.type⟩, hwritten r hr⟩

/-- A search for the greatest elements that was not skipped: what it has written. -/
theorem launch_argmax (h : c.launch (.argmax x output) = (.ok (), c')) (hskip : ¬ c.Skips (.argmax x output)) :
    ∃ t index outers inner, Rowwise x output t outers inner ∧ output.type = IndexType.element index ∧
      ∀ r < outers.prod, c.Ready t x ∧
        c'.get output (Shape.indexAt output.shape.toList r) = .ok (Scalar.ofNat index.element
          (if inner = 0 then 0 else
            (index.ofPosition (ReduceOp.argmax ((c.row t x inner r).map t.widen))).toNat)) := by
  have hstrict : c.strictly.argmax x output = (.ok (), c'.strictly) := launch_strictly h hskip
  obtain ⟨t, outers, inner, index, hrows, hindex, hrun⟩ :=
    runKernel_rows (k := fun t index inner => (t, index, inner)) rfl hstrict
  have hot := checkIndex_eq_ok hindex
  refine ⟨t, index, outers, inner, hrows, hot, fun r hr => ?_⟩
  obtain ⟨hx, hwritten⟩ := writeRows_eq_ok hrows hot (by cases index <;> decide) (hrun (by omega))
  exact ⟨⟨hx.valid, hx.contiguous, hx.type⟩, hwritten r hr⟩

end Context

end StridedTensor
