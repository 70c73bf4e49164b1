import StridedTensor.Kernel.Operand
import StridedTensor.Proofs.Elements
import StridedTensor.Proofs.Result

/-!
# Operands while the output is written

A kernel reads its operands while it writes the output, and they may share bytes. Whatever they share, an operand
is read as it was before the first write (`resolve_eq`): it was read in full beforehand, or it is the output itself
and each of its elements is read before the element is written. A loop that visits every cell once therefore
computes each cell from the elements before the loop (`foldlM_put`).
-/

namespace StridedTensor

namespace Kernel

/-! ### Preconditions -/

theorem checkOperand_eq_ok {x : Tensor} :
    checkOperand x = .ok () ↔ x.device.isCpu = true ∧ x.isContiguous = .ok true := by
  unfold checkOperand
  cases x.device.isCpu with
  | false => simp
  | true =>
    cases x.isContiguous with
    | error e => simp
    | ok contiguous => cases contiguous <;> simp

theorem checkFloat_eq_ok {x : Tensor} {t : FloatType} : checkFloat x = .ok t ↔ x.type = t.element := by
  unfold checkFloat
  constructor
  · intro h
    split at h
    · rename_i t' ht
      obtain rfl : t' = t := by simpa using h
      cases hx : x.type <;> simp [hx, ElementType.float?] at ht <;> subst ht <;> rfl
    · simp at h
  · intro h
    rw [h, FloatType.float?_element]

theorem checkType_eq_ok {x y : Tensor} : checkType x y = .ok () ↔ x.type = y.type := by
  unfold checkType
  split <;> simp [*]

theorem checkOperand_avoids {x : Tensor} {f : Fault} (h : x.isContiguous.Avoids f) : (checkOperand x).Avoids f := by
  unfold checkOperand
  split
  · exact .reject _
  · refine .bind h fun contiguous _ => ?_
    split
    · exact .reject _
    · exact .ok _

theorem checkFloat_avoids (x : Tensor) {f : Fault} : (checkFloat x).Avoids f := by
  unfold checkFloat
  split
  · exact .ok _
  · exact .reject _

theorem checkType_avoids (x y : Tensor) {f : Fault} : (checkType x y).Avoids f := by
  unfold checkType
  split
  · exact .ok _
  · exact .reject _

variable {α γ : Type}

/-! ### Loops -/

/-- A loop over distinct cells. If the value of a cell depends on no other cell, then it is the one that the
elements before the loop determine. -/
theorem foldlM_put (cells : List γ) (position : γ → Nat) {f : Array α → γ → Result α} (value : γ → Option α)
    (xs : Array α) (hnodup : (cells.map position).Nodup) (hlt : ∀ p ∈ cells, position p < xs.size)
    (hf : ∀ p ∈ cells, ∃ v, value p = some v ∧
      ∀ ys : Array α, ys.size = xs.size → ys[position p]? = xs[position p]? → f ys p = .ok v) :
    ∃ zs, cells.foldlM (fun ys p => do put ys (position p) (← f ys p)) xs = .ok zs ∧ zs.size = xs.size ∧
      (∀ p ∈ cells, zs[position p]? = value p) ∧ ∀ i, i ∉ cells.map position → zs[i]? = xs[i]? := by
  induction cells generalizing xs with
  | nil => exact ⟨xs, rfl, rfl, by simp, fun i _ => rfl⟩
  | cons p cells ih =>
    rw [List.map_cons, List.nodup_cons] at hnodup
    obtain ⟨hp, hnodup⟩ := hnodup
    obtain ⟨v, hv, hfp⟩ := hf p (by simp)
    have hput : put xs (position p) v = .ok (xs.setIfInBounds (position p) v) := if_pos (hlt p (by simp))
    -- the cells that follow still hold what they held
    have hkeep : ∀ i, i ≠ position p → (xs.setIfInBounds (position p) v)[i]? = xs[i]? := fun i hi =>
      Array.getElem?_setIfInBounds_ne hi.symm
    have hne : ∀ q ∈ cells, position q ≠ position p := fun q hq e => hp (e ▸ List.mem_map_of_mem hq)
    obtain ⟨zs, hzs, hsize, hmem, hrest⟩ := ih (xs.setIfInBounds (position p) v) hnodup
      (fun q hq => by rw [Array.size_setIfInBounds]; exact hlt q (by simp [hq]))
      (fun q hq => by
        obtain ⟨w, hw, hfq⟩ := hf q (by simp [hq])
        refine ⟨w, hw, fun ys hs hy => hfq ys (by simpa using hs) ?_⟩
        rw [hy, hkeep _ (hne q hq)])
    refine ⟨zs, ?_, by simpa using hsize, ?_, ?_⟩
    · rw [List.foldlM_cons, hfp xs rfl rfl, Result.ok_bind, hput]
      exact hzs
    · intro q hq
      rcases List.mem_cons.1 hq with rfl | hq
      · rw [hrest _ hp, hv, Array.getElem?_setIfInBounds_self_of_lt (hlt q (by simp))]
      · exact hmem q hq
    · intro i hi
      rw [List.map_cons, List.mem_cons, not_or] at hi
      rw [hrest i hi.2, hkeep i hi.1]

theorem updateEach_eq {f : Array α → Nat → Result α} (value : Nat → Option α) (xs : Array α)
    (hf : ∀ k < xs.size, ∃ v, value k = some v ∧
      ∀ ys : Array α, ys.size = xs.size → ys[k]? = xs[k]? → f ys k = .ok v) :
    ∃ zs, updateEach f xs = .ok zs ∧ zs.size = xs.size ∧ ∀ k < xs.size, zs[k]? = value k := by
  obtain ⟨zs, hzs, hsize, hmem, -⟩ := foldlM_put (List.range xs.size) (fun k => k) value xs
    (by simpa using List.nodup_range) (fun k hk => List.mem_range.1 hk) (fun k hk => hf k (List.mem_range.1 hk))
  exact ⟨zs, hzs, hsize, fun k hk => hmem k (List.mem_range.2 hk)⟩

end Kernel

/-! ### Operands -/

namespace Operand

variable {α : Type}

/-- Either the operand has the elements `source`, or it is the output, and that has them. -/
def Reads (x : Operand α) (source output : Array α) : Prop := x = .elements source ∨ x = .output ∧ source = output

/-- An element is read as it was at first, if the output still holds what it held there. -/
theorem Reads.get {x : Operand α} {source output ys : Array α} (h : x.Reads source output) {k : Nat} {v : α}
    (hv : source[k]? = some v) (hy : ys[k]? = output[k]?) : x.get ys k = .ok v := by
  rcases h with rfl | ⟨rfl, rfl⟩
  · simp only [Operand.get, hv]
  · simp only [Operand.get, hy, hv]

end Operand

namespace Context

variable {c c' : Context} {t : FloatType} {x output : Tensor} {id : BufferId} {b : Buffer}

namespace Ready

theorem span_eq (h : c.Ready t x) :
    x.span = .ok ⟨x.offset, x.offset + t.element.size * x.shape.toList.prod⟩ := by
  obtain ⟨s, hs⟩ := (hosts_of_validate h.valid).span
  rw [hs, Tensor.span_of_isContiguous h.contiguous hs, h.type]

private theorem stop_le (h : c.Ready t x) (hid : x.buffer = some id) (hb : c.arena.get? id = some b) :
    x.offset + t.element.size * x.shape.toList.prod ≤ b.contents.size := by
  obtain ⟨b', s, hb', -, -, hs, hle⟩ := buffer_of_validate h.valid hid
  obtain rfl : b' = b := by simpa [hb] using hb'.symm
  obtain rfl : s = _ := by simpa [h.span_eq] using hs.symm
  exact hle

theorem spanBytes?_eq (h : c.Ready t x) (hid : x.buffer = some id) (hb : c.arena.get? id = some b) :
    Kernel.spanBytes? b ⟨x.offset, x.offset + t.element.size * x.shape.toList.prod⟩ =
      some (b.contents.slice x.offset (t.element.size * x.shape.toList.prod)) := by
  have hle := h.stop_le hid hb
  unfold Kernel.spanBytes?
  rw [Bytes.read?_of_le (by simp only [Span.length]; omega)]
  simp only [Span.length, Nat.add_sub_cancel_left]

theorem load_eq (hid : x.buffer = some id) (hb : c.arena.get? id = some b) :
    Kernel.load t (b.contents.slice x.offset (t.element.size * x.shape.toList.prod)) = c.floats t x := by
  rw [Kernel.load_slice, floats, contents_eq hid hb]

/-- The elements of a tensor that is not the output's, if its first byte is aligned. -/
theorem borrow_eq (h : c.Ready t x) (hid : x.buffer = some id) (hb : c.arena.get? id = some b) :
    Kernel.borrow t b ⟨x.offset, x.offset + t.element.size * x.shape.toList.prod⟩ =
      if (b.address + x.offset) % t.element.alignment = 0 then .ok (.elements (c.floats t x))
      else Result.reject (.misaligned t.element) := by
  obtain ⟨b', s, hb', -, hhost, -⟩ := buffer_of_validate h.valid hid
  obtain rfl : b' = b := by simpa [hb] using hb'.symm
  unfold Kernel.borrow
  simp only [hhost, h.spanBytes?_eq hid hb, Ready.load_eq hid hb, Kernel.isAligned, Span.length,
    Nat.add_sub_cancel_left, Nat.mul_mod_right, BEq.rfl, Bool.and_true, beq_iff_eq]
  rfl

theorem prod_eq_zero (h : c.Ready t x) (hid : x.buffer = none) : x.shape.toList.prod = 0 := by
  obtain ⟨-, hempty, -⟩ := Tensor.validate_eq_ok.1 (validate_iff.1 h.valid).1
  exact (Tensor.numel_eq (hempty hid).2).symm

/-- Two tensors of one buffer with the same span have the same elements. -/
private theorem floats_eq (h : c.Ready t x) (ho : c.Ready t output) (hid : x.buffer = output.buffer)
    (hs : x.span = output.span) : c.floats t x = c.floats t output := by
  rw [h.span_eq, ho.span_eq, Except.ok.injEq, Span.mk.injEq] at hs
  obtain ⟨hoff, hstop⟩ := hs
  have hprod : x.shape.toList.prod = output.shape.toList.prod :=
    Nat.eq_of_mul_eq_mul_left t.element.size_pos (by omega)
  unfold floats contents
  rw [hid, hoff, hprod]

end Ready

section Resolve

variable {arena : Arena} {inPlace : Bool}

private theorem resolve_of_none (hx : c.Ready t x) (hid : x.buffer = none) :
    Kernel.resolve t arena b x output inPlace = .ok (.elements (c.floats t x)) := by
  have hempty : c.floats t x = #[] := Array.eq_empty_of_size_eq_zero (by rw [size_floats, hx.prod_eq_zero hid])
  unfold Kernel.resolve
  rw [hx.span_eq, Result.ok_bind, hid, hempty, hx.prod_eq_zero hid]
  simp [Span.isEmpty, pure, Except.pure]

/-- An operand in the buffer of the output is the output or was read in full. -/
private theorem resolve_of_same (hx : c.Ready t x) (ho : c.Ready t output) (hid : x.buffer = some id)
    (hsame : x.buffer = output.buffer) (hb : c.arena.get? id = some b) :
    Kernel.resolve t arena b x output inPlace =
      .ok (if inPlace && x.span == output.span then .output else .elements (c.floats t x)) := by
  unfold Kernel.resolve
  rw [hx.span_eq, Result.ok_bind, ho.span_eq, ← hsame, hid]
  simp only [if_true, Result.ok_bind, hx.spanBytes?_eq hid hb, Ready.load_eq hid hb, hx.type, ho.type]
  generalize Span.mk x.offset _ = s
  generalize Span.mk output.offset _ = s'
  by_cases hs : s = s' <;> cases inPlace <;> simp [hs, pure, Except.pure]

private theorem resolve_of_ne (b : Buffer) (inPlace : Bool) {xid : BufferId} (hx : c.Ready t x) (hid : output.buffer = some id)
    (hxid : x.buffer = some xid) (hne : x.buffer ≠ output.buffer) :
    Kernel.resolve t (c.arena.erase id) b x output inPlace = .ok (.elements (c.floats t x)) ∨
      Kernel.resolve t (c.arena.erase id) b x output inPlace = Result.reject (.misaligned t.element) := by
  obtain ⟨other, s, hother, -⟩ := buffer_of_validate hx.valid hxid
  have hid' : xid ≠ id := by
    rintro rfl
    exact hne (by rw [hxid, hid])
  have harena : (c.arena.erase id).get? xid = some other := by rw [Table.get?_erase, if_neg hid', hother]
  unfold Kernel.resolve
  rw [hx.span_eq, Result.ok_bind, hxid]
  rw [hxid] at hne
  simp only [if_neg hne, harena, hx.borrow_eq hxid hother]
  split
  · exact .inl rfl
  · exact .inr rfl

/-- An operand is read as it was before the call, wherever it lies, or it is rejected because its bytes are not
aligned. Unless it may be read in place, it is read in full beforehand. -/
theorem resolve_eq (hx : c.Ready t x) (ho : c.Ready t output) (hid : output.buffer = some id)
    (hb : c.arena.get? id = some b) (inPlace : Bool) :
    (∃ operand, Kernel.resolve t (c.arena.erase id) b x output inPlace = .ok operand ∧
        operand.Reads (c.floats t x) (c.floats t output) ∧
        (inPlace = false → operand = .elements (c.floats t x))) ∨
      Kernel.resolve t (c.arena.erase id) b x output inPlace = Result.reject (.misaligned t.element) := by
  cases hxid : x.buffer with
  | none => exact .inl ⟨_, resolve_of_none hx hxid, .inl rfl, fun _ => rfl⟩
  | some xid =>
    by_cases hsame : x.buffer = output.buffer
    · obtain rfl : xid = id := by simpa [hxid, hid] using hsame
      refine .inl ⟨_, resolve_of_same hx ho hxid hsame hb, ?_, fun hf => by simp [hf]⟩
      split
      · rename_i hplace
        simp only [Bool.and_eq_true, beq_iff_eq] at hplace
        exact .inr ⟨rfl, hx.floats_eq ho hsame hplace.2⟩
      · exact .inl rfl
    · rcases resolve_of_ne b inPlace hx hid hxid hsame with h | h
      · exact .inl ⟨_, h, .inl rfl, fun _ => rfl⟩
      · exact .inr h

/-- An operand that is not read in place is read in full, whatever the type of the output. -/
theorem resolve_staged (hx : c.Ready t x) (ho : c.validate output = .ok ()) (hid : output.buffer = some id)
    (hb : c.arena.get? id = some b) :
    Kernel.resolve t (c.arena.erase id) b x output false = .ok (.elements (c.floats t x)) ∨
      Kernel.resolve t (c.arena.erase id) b x output false = Result.reject (.misaligned t.element) := by
  cases hxid : x.buffer with
  | none => exact .inl (resolve_of_none hx hxid)
  | some xid =>
    by_cases hsame : x.buffer = output.buffer
    · obtain rfl : xid = id := by simpa [hxid, hid] using hsame
      obtain ⟨-, s, -, -, -, hs, -⟩ := buffer_of_validate ho hid
      left
      unfold Kernel.resolve
      rw [hx.span_eq, Result.ok_bind, hs, ← hsame, hxid]
      simp only [if_true, Result.ok_bind, hx.spanBytes?_eq hxid hb, Ready.load_eq hxid hb]
      rfl
    · exact resolve_of_ne b false hx hid hxid hsame

theorem resolve_reads (hx : c.Ready t x) (ho : c.Ready t output) (hid : output.buffer = some id)
    (hb : c.arena.get? id = some b) {operand : Operand (Binary t.format)}
    (h : Kernel.resolve t (c.arena.erase id) b x output inPlace = .ok operand) :
    operand.Reads (c.floats t x) (c.floats t output) ∧ (inPlace = false → operand = .elements (c.floats t x)) := by
  rcases resolve_eq hx ho hid hb inPlace with ⟨operand', h', hreads⟩ | h'
  · obtain rfl : operand' = operand := by simpa [h] using h'.symm
    exact hreads
  · simp [h'] at h

end Resolve

/-! ### The output -/

/-- The bytes of the output, unless they are not aligned for elements of the given type. -/
theorem outputBytes_of_validate (ho : c.validate output = .ok ()) (hid : output.buffer = some id)
    (hb : c.arena.get? id = some b) (type : ElementType) :
    (∃ found, Kernel.outputBytes type b output = .ok found) ∨
      Kernel.outputBytes type b output = Result.reject (.misaligned type) := by
  obtain ⟨b', s, hb', -, -, hs, hle⟩ := buffer_of_validate ho hid
  obtain rfl : b' = b := by simpa [hb] using hb'.symm
  have hstart := Tensor.span_le hs
  have hbytes : Kernel.spanBytes? b' s = some (b'.contents.slice s.start s.length) := by
    apply Bytes.read?_of_le
    unfold Span.length
    unfold Buffer.size at hle
    omega
  unfold Kernel.outputBytes
  rw [hs, Result.ok_bind, hbytes]
  simp only
  split
  · exact .inl ⟨_, rfl⟩
  · exact .inr rfl

theorem outputBytes_eq (ho : c.Ready t output) (hid : output.buffer = some id) (hb : c.arena.get? id = some b) :
    Kernel.outputBytes t.element b output =
        .ok (⟨output.offset, output.offset + t.element.size * output.shape.toList.prod⟩,
          b.contents.slice output.offset (t.element.size * output.shape.toList.prod)) ∨
      Kernel.outputBytes t.element b output = Result.reject (.misaligned t.element) := by
  unfold Kernel.outputBytes
  rw [ho.span_eq, Result.ok_bind, ho.spanBytes?_eq hid hb]
  simp only
  split
  · exact .inl rfl
  · exact .inr rfl

theorem writeElements_avoids {fault : Fault}
    {kernel : Arena → Buffer → Result (Array (Binary t.format) → Result (Array (Binary t.format)))}
    (hc : output.isContiguous = .ok true) (ht : output.type = t.element)
    (hk : ∀ id b, c.Ready t output → output.buffer = some id → c.arena.get? id = some b →
      (kernel (c.arena.erase id) b >>= fun run => run (c.floats t output)).Avoids fault) :
    (c.writeElements t output kernel).1.Avoids fault := by
  apply withOutput_avoids (Tensor.numel_avoids_of_isContiguous (by rw [hc]; exact .ok _))
  intro id b hv hid hb
  have ho : c.Ready t output := ⟨hv, hc, ht⟩
  have hkb := hk id b ho hid hb
  cases hrun : kernel (c.arena.erase id) b with
  | error e =>
    rw [hrun] at hkb
    exact hkb.error
  | ok run =>
    rw [hrun, Result.ok_bind] at hkb
    rcases outputBytes_eq ho hid hb with hbytes | hbytes
    · simp only [Result.ok_bind, hbytes, Ready.load_eq hid hb]
      exact .bind hkb fun _ _ => .ok _
    · rw [Result.ok_bind, hbytes]
      exact .reject _

/-- What a kernel has done if it succeeds: it ran on the elements of the output, and those that it left can be
read from the output afterwards. -/
theorem writeElements_eq_ok
    {kernel : Arena → Buffer → Result (Array (Binary t.format) → Result (Array (Binary t.format)))}
    (hc : output.isContiguous = .ok true) (ht : output.type = t.element)
    (h : c.writeElements t output kernel = (.ok (), c')) :
    ∃ id b run zs, c.Ready t output ∧ output.buffer = some id ∧ c.arena.get? id = some b ∧
      kernel (c.arena.erase id) b = .ok run ∧ run (c.floats t output) = .ok zs ∧
      (zs.size = output.shape.toList.prod → c'.Ready t output ∧ c'.floats t output = zs) := by
  obtain ⟨id, b, contents, hv, hid, hb, hrun, rfl⟩ := withOutput_eq_ok h
  have ho : c.Ready t output := ⟨hv, hc, ht⟩
  obtain ⟨run, hk, hrun⟩ := Result.bind_eq_ok.1 hrun
  rcases outputBytes_eq ho hid hb with hbytes | hbytes
  · rw [hbytes] at hrun
    simp only [Result.ok_bind, Ready.load_eq hid hb] at hrun
    obtain ⟨zs, hzs, hcontents⟩ := Result.bind_eq_ok.1 hrun
    obtain rfl := Result.pure_eq_ok.1 hcontents
    refine ⟨id, b, run, zs, ho, hid, hb, hk, hzs, fun hsize => ?_⟩
    refine ⟨⟨validate_setContents ?_ hv, hc, ht⟩, ?_⟩
    · rw [Bytes.size_write, contents_eq hid hb]
    · have hle := ho.stop_le hid hb
      unfold floats
      rw [contents_setContents hid hb, ← hsize]
      exact Bytes.floats_write_store (by rw [hsize]; exact hle)
  · simp [hbytes] at hrun

end Context

end StridedTensor
