import StridedTensor.Proofs.Faults
import StridedTensor.Tensor.View

/-!
# Errors that are not ordinary

Most errors tell of the arguments of a request or of the state of a buffer. Others name a device that is not available,
or speak of the library itself: an owning tensor with a stride of zero, and a buffer on another device than the tensor
that refers to it. There are few places that report them: allocations, copies between devices, the check of a tensor
and the preconditions of kernels. What these may report about a tensor is gathered in `Context.Admits`, and nothing
else is reported about it by any operation (`Context.reports_launch` for the kernels).

Outside those places the argument is the same for every function, a walk through its steps, so the lemmas on steps and
on whole functions are rules for `grind`.
-/

namespace StridedTensor

namespace TensorError

/-- An error that no request causes as long as tensors and buffers are in order. -/
def isInternal : TensorError → Bool
  | zeroStride _ _ | deviceMismatch _ _ => true
  | _ => false

/-- The device that an error names as not available. -/
def device? : TensorError → Option Device
  | device d | alloc (.device d) => some d
  | _ => none

/-- An error that is not internal and does not name a device. -/
@[grind] def isOrdinary : TensorError → Bool
  | zeroStride _ _ | deviceMismatch _ _ | device _ | alloc (.device _) => false
  | _ => true

theorem isInternal_of_isOrdinary {e : TensorError} (h : e.isOrdinary = true) : e.isInternal = false := by
  unfold isOrdinary at h
  split at h <;> simp_all [isInternal]

theorem device?_of_isOrdinary {e : TensorError} (h : e.isOrdinary = true) : e.device? = none := by
  unfold isOrdinary at h
  split at h <;> simp_all [device?]

end TensorError

variable {P : TensorError → Prop}

namespace Result

variable {α β : Type}

/-- If the result is an error that is not ordinary, then it is as `P` says. -/
def Reports (P : TensorError → Prop) (r : Result α) : Prop := ∀ e : TensorError, r = reject e → e.isOrdinary = true ∨ P e

@[grind ←] theorem reports_ok (a : α) : Reports P (.ok a) := by simp [Reports, reject]

@[grind ←] theorem reports_pure (a : α) : Reports P (pure a : Result α) := reports_ok a

@[grind =] theorem reports_reject {e : TensorError} : Reports P (reject e : Result α) ↔ e.isOrdinary = true ∨ P e := by
  simp [Reports, reject]

@[grind ←] theorem reports_halt (f : Fault) : Reports P (halt f : Result α) := by simp [Reports, reject, halt]

private theorem reports_error {e : Failure} (h : Reports P (.error e : Result α)) :
    Reports P (.error e : Result β) := by
  intro e' he
  apply h
  simpa [reject] using he

theorem reports_of_eq {e : Failure} {r : Result α} (hr : Reports P r) (h : r = .error e) :
    Reports P (.error e : Result β) := reports_error (h ▸ hr)

@[grind ←] theorem reports_bind {r : Result α} {g : α → Result β} (hr : Reports P r) (hg : ∀ a, Reports P (g a)) :
    Reports P (r >>= g) := by
  cases r with
  | ok a => exact hg a
  | error e => exact reports_error hr

@[grind ←] theorem reports_map {r : Result α} {g : α → β} (hr : Reports P r) : Reports P (g <$> r) := by
  cases r with
  | ok a => exact reports_ok (g a)
  | error e => exact reports_error hr

@[grind ←] theorem reports_discard {r : Result α} (hr : Reports P r) : Reports P (discard r) := by
  cases r with
  | ok a => exact reports_ok ()
  | error e => exact reports_error hr

@[grind ←] theorem reports_ofWord? (o : Option α) : Reports P (ofWord? o) := by
  cases o with
  | none => exact reports_halt _
  | some a => exact reports_ok a

@[grind ←] theorem reports_ofSpanEnd? (o : Option α) : Reports P (ofSpanEnd? o) := by
  cases o with
  | none => exact reports_reject.2 (.inl rfl)
  | some a => exact reports_ok a

@[grind ←] theorem reports_mapM {f : α → Result β} (h : ∀ x, Reports P (f x)) (xs : List α) : Reports P (xs.mapM f) := by
  induction xs with
  | nil => exact reports_pure []
  | cons x xs ih =>
    rw [List.mapM_cons]
    exact reports_bind (h x) fun _ => reports_bind ih fun _ => reports_pure _

@[grind ←] theorem reports_foldlM {f : β → α → Result β} (h : ∀ b x, Reports P (f b x)) (xs : List α) (b : β) :
    Reports P (xs.foldlM f b) := by
  induction xs generalizing b with
  | nil => exact reports_pure b
  | cons x xs ih =>
    rw [List.foldlM_cons]
    exact reports_bind (h b x) ih

end Result

open Result

/-! ### Shapes, layouts and views -/

@[grind ←] theorem Dims.reports_ofList {kind : DimsKind} (xs : List Nat) : Reports P (ofList xs : Result (Dims kind)) := by
  grind [ofList]

@[grind ←] theorem Dims.reports_insert {kind : DimsKind} (d : Dims kind) (index value : Nat) :
    Reports P (d.insert index value) := by
  grind [insert]

@[grind ←] theorem Shape.reports_numel (s : Shape) : Reports P s.numel := reports_ofWord? _

@[grind ←] theorem Shape.reports_byteSize (s : Shape) (t : ElementType) : Reports P (s.byteSize t) := by
  grind [byteSize]

namespace Layout

@[grind ←] theorem reports_canonical (s : Shape) (t : ElementType) : Reports P (canonical s t) := by
  grind [canonical]

@[grind ←] theorem reports_insert (l : Layout) (dim extent stride : Nat) : Reports P (l.insert dim extent stride) := by
  unfold insert
  split
  · exact reports_ok _
  · exact reports_of_eq (l.shape.reports_insert dim extent) ‹_›
  · exact reports_of_eq (l.strides.reports_insert dim stride) ‹_›

@[grind ←] theorem reports_expand (l : Layout) (target : Shape) : Reports P (l.expand target) := by
  grind [expand]

end Layout

namespace Tensor

variable (t : Tensor)

@[grind ←] theorem reports_numel : Reports P t.numel := Shape.reports_numel _

@[grind ←] theorem reports_isContiguous : Reports P t.isContiguous := by
  grind [isContiguous, Layout.isContiguous, Layout.isPacked]

@[grind ←] theorem reports_span : Reports P t.span := by grind [span]

@[grind ←] theorem reports_elementOffset (index : List Nat) : Reports P (t.elementOffset index) := by
  grind [elementOffset]

@[grind ←] theorem reports_offsets : Reports P t.offsets := by grind [offsets]

@[grind ←] theorem reports_owned (id : BufferId) (s : Shape) (type : ElementType) (d : Device) :
    Reports P (owned id s type d) := by grind [owned]

@[grind ←] theorem reports_borrowed (id : Option BufferId) (s : Shape) (type : ElementType) (d : Device) :
    Reports P (borrowed id s type d) := by grind [borrowed]

@[grind ←] theorem reports_asStrided (extents strides : List Nat) (offset : Nat) :
    Reports P (t.asStrided extents strides offset) := by grind [asStrided]

@[grind ←] theorem reports_reshape (extents : List Nat) : Reports P (t.reshape extents) := by
  grind [reshape, reshapeTo]

@[grind ←] theorem reports_canReshape (extents : List Nat) : Reports P (t.canReshape extents) := by
  grind [canReshape]

end Tensor

@[grind ←] theorem ViewOp.reports_apply (op : ViewOp) (t : Tensor) : Reports P (op.apply t) := by
  cases op with
  | view | transpose | squeeze => exact reports_ok _
  | asStrided | reshape => grind [apply]
  | flatten => grind [apply, Tensor.flatten]
  | slice => grind [apply, Tensor.slice]
  | squeezeDim => grind [apply, Tensor.squeezeDim]
  | unsqueeze => grind [apply, Tensor.unsqueeze]
  | permute => grind [apply, Tensor.permute]
  | expand => grind [apply, Tensor.expand]

/-! ### Checked accesses -/

namespace Context

/-- What the check of a tensor may report: that its device is not available, that it owns its buffer and has a stride of
zero, and that the buffer is on another device. -/
structure Admits (P : TensorError → Prop) (c : Context) (t : Tensor) : Prop where
  device : t.device.isAvailable = false → P (.device t.device)
  strides : ∀ dim, t.ownership = true → t.zeroStride? = some dim → P (.zeroStride dim (t.shape.entry dim))
  buffer : ∀ {id b}, t.buffer = some id → c.arena.get? id = some b → b.device ≠ t.device →
    P (.deviceMismatch t.device b.device)

/-- The tensor is in order: no stride is zero if it owns its buffer, and it is on the device of that, if the context
holds it. -/
structure Agrees (c : Context) (t : Tensor) : Prop where
  strides : t.ownership = true → t.zeroStride? = none
  device : ∀ {id b}, t.buffer = some id → c.arena.get? id = some b → b.device = t.device

/-- No internal error is reported about a tensor that is in order. -/
theorem Agrees.admits {c : Context} {t : Tensor} (h : c.Agrees t)
    (hd : t.device.isAvailable = false → P (.device t.device)) : c.Admits P t where
  device := hd
  strides dim howner hzero := by simp [h.strides howner] at hzero
  buffer hid hb hne := absurd (h.device hid hb) hne

end Context

private theorem Tensor.reports_validate {c : Context} {t : Tensor} (h : c.Admits P t) : Reports P t.validate := by
  have hspan : Reports P (discard t.span) := by grind
  unfold validate
  cases hd : t.device.isAvailable with
  | false => exact reports_reject.2 (.inr (h.device hd))
  | true =>
    cases t.buffer with
    | none =>
      cases t.ownership with
      | true => exact reports_reject.2 (.inl rfl)
      | false =>
        refine reports_bind t.reports_numel fun n => ?_
        split
        · exact reports_reject.2 (.inl rfl)
        · exact hspan
    | some id =>
      cases howner : t.ownership with
      | false => exact hspan
      | true =>
        cases hzero : t.zeroStride? with
        | none => exact hspan
        | some dim => exact reports_reject.2 (.inr (h.strides dim howner hzero))

@[grind ←] theorem Bytes.reports_element (contents : Bytes) (offset size : Nat) :
    Reports P (contents.element offset size) := by grind [element]

@[grind ←] theorem Bytes.reports_setElement (contents : Bytes) (offset : Nat) (bytes : List UInt8) :
    Reports P (contents.setElement offset bytes) := by grind [setElement]

@[grind ←] theorem Scalar.reports_ofBytes (type : ElementType) (bytes : List UInt8) :
    Reports P (ofBytes type bytes) := by grind [ofBytes]

namespace Context

variable {c : Context} {t x y output : Tensor}

@[grind ←] theorem reports_check (h : c.Admits P t) : Reports P (c.check t) := by
  unfold check
  refine reports_bind (Tensor.reports_validate h) fun _ => ?_
  split
  · exact reports_pure _
  · rename_i id hid
    split
    · exact reports_reject.2 (.inl rfl)
    · rename_i b hb
      split
      · rename_i hne
        exact reports_reject.2 (.inr (h.buffer hid hb hne))
      · grind

@[grind ←] theorem reports_validate (h : c.Admits P t) : Reports P (c.validate t) := reports_discard (reports_check h)

/-- The buffer behind a checked tensor is on the host. -/
private theorem hostBytes_of_check {b : Buffer} (h : c.check t = .ok (some b)) : b.hostBytes = .ok b.contents := by
  obtain ⟨hv, hfound⟩ := check_eq_ok.1 h
  cases hid : t.buffer with
  | none => simp [hid] at hfound
  | some id =>
    rw [hid] at hfound
    obtain ⟨b', s, -, hd, -, -, hb'⟩ := hfound
    obtain rfl := Option.some.inj hb'
    exact if_pos (hd ▸ (Tensor.validate_eq_ok.1 hv).1)

@[grind ←] theorem reports_host (h : c.Admits P t) : Reports P (c.host t) := by
  have hcheck := reports_check h
  unfold host
  cases hfound : c.check t with
  | error e => exact reports_of_eq hcheck hfound
  | ok found =>
    cases found with
    | none => exact reports_ok _
    | some b =>
      show Reports P b.hostBytes
      rw [hostBytes_of_check hfound]
      exact reports_ok _

theorem reports_updateHost (h : c.Admits P t) {f : Bytes → Result Bytes} (hf : ∀ contents, Reports P (f contents)) :
    Reports P (c.updateHost t f).1 := by
  have hr : Reports P (c.host t >>= f) := reports_bind (reports_host h) hf
  unfold updateHost
  split
  · exact reports_ok ()
  · exact reports_of_eq hr ‹_›

private theorem reports_withOutput (h : c.Admits P t) {f : Arena → Buffer → Result Bytes}
    (hf : ∀ id b, Reports P (f (c.arena.erase id) b)) : Reports P (c.withOutput t f).1 := by
  unfold withOutput Arena.withOutput
  cases hcheck : c.check t with
  | error e => exact reports_of_eq (reports_check h) hcheck
  | ok found =>
    cases hid : t.buffer with
    | none => exact reports_reject.2 (.inl rfl)
    | some id =>
      obtain ⟨b, -, hb, -, hhost, -⟩ := buffer_of_validate (validate_eq_ok.2 ⟨found, hcheck⟩) hid
      simp only [hb, hhost, Result.ok_bind]
      cases hr : f (c.arena.erase id) b with
      | error e => exact reports_of_eq (hf id b) hr
      | ok contents => exact reports_ok ()

@[grind ←] theorem reports_get (h : c.Admits P t) (index : List Nat) : Reports P (c.get t index) := by grind [get]

theorem reports_set (h : c.Admits P t) (index : List Nat) (v : Scalar) : Reports P (c.set t index v).1 := by
  unfold set
  split
  · exact reports_of_eq (t.reports_elementOffset index) ‹_›
  · exact reports_updateHost h fun _ => Bytes.reports_setElement _ _ _

theorem reports_fill (h : c.Admits P t) (v : Scalar) : Reports P (c.fill t v).1 :=
  reports_updateHost h fun _ => by grind

@[grind ←] theorem reports_toList (h : c.Admits P t) (type : ElementType) : Reports P (c.toList t type) := by
  grind [toList]

theorem reports_toScalar (h : c.Admits P t) : Reports P (c.toScalar t) := by grind [toScalar]

theorem reports_elements (h : c.Admits P t) : Reports P (c.elements t) := by grind [elements]

@[grind ←] theorem reports_gather (h : c.Admits P t) : Reports P (c.gather t) := by grind [gather]

/-- Of two tensors that cannot be copied to one another the one that is not on the host is blamed. -/
private theorem reports_checkCopy (hx : c.Admits P x) (ho : c.Admits P output) : Reports P (checkCopy x output) := by
  unfold checkCopy CopyDirection.between
  split
  · exact reports_reject.2 (.inl rfl)
  · split
    · exact reports_reject.2 (.inl rfl)
    · cases hsource : x.device.isCpu with
      | false => cases output.device.isCpu <;> exact reports_reject.2 (.inr (hx.device hsource))
      | true =>
        cases htarget : output.device.isCpu with
        | false => exact reports_reject.2 (.inr (ho.device htarget))
        | true => exact reports_ok ()

theorem reports_copy (hx : c.Admits P x) (ho : c.Admits P output) : Reports P (c.copy x output).1 := by
  have hread : Reports P (checkCopy x output >>= fun _ => c.gather x) :=
    reports_bind (reports_checkCopy hx ho) fun _ => reports_gather hx
  unfold copy
  split
  · exact reports_of_eq hread ‹_›
  · exact reports_updateHost ho fun _ => by grind

end Context

/-! ### Kernels -/

namespace Kernel

variable {c : Context} {t : FloatType} {x y output : Tensor} {b : Buffer}

private theorem reports_checkOperand (h : c.Admits P x) : Reports P (checkOperand x) := by
  unfold checkOperand
  cases hd : x.device.isCpu with
  | false => exact reports_reject.2 (.inr (h.device hd))
  | true => grind

@[grind ←] theorem reports_checkFloat (x : Tensor) : Reports P (checkFloat x) := by grind [checkFloat]

@[grind ←] theorem reports_checkIndex (x : Tensor) : Reports P (checkIndex x) := by grind [checkIndex]

@[grind ←] theorem reports_checkType (x y : Tensor) : Reports P (checkType x y) := by grind [checkType]

private theorem reports_checkUnary (hx : c.Admits P x) (ho : c.Admits P output) : Reports P (checkUnary x output) := by
  unfold checkUnary
  refine reports_bind (reports_checkOperand hx) fun _ => reports_bind (reports_checkOperand ho) fun _ => ?_
  grind

private theorem reports_checkSecond (x : Tensor) (hy : c.Admits P y) : Reports P (checkSecond x y) := by
  unfold checkSecond
  refine reports_bind (reports_checkOperand hy) fun _ => ?_
  grind

@[grind ←] theorem reports_unlessEmpty {κ : Type} (output : Tensor) (k : κ) : Reports P (unlessEmpty output k) := by
  grind [unlessEmpty]

private theorem reports_checkGemm (hx : c.Admits P x) (hy : c.Admits P y) (ho : c.Admits P output) :
    Reports P (checkGemm x y output) := by
  unfold checkGemm
  refine reports_bind (reports_checkOperand hx) fun _ => reports_bind (reports_checkOperand hy) fun _ =>
    reports_bind (reports_checkOperand ho) fun _ => reports_bind (reports_checkFloat x) fun _ => ?_
  grind

private theorem reports_checkRows (hx : c.Admits P x) (ho : c.Admits P output) : Reports P (checkRows x output) := by
  unfold checkRows
  refine reports_bind (reports_checkOperand hx) fun _ => reports_bind (reports_checkOperand ho) fun _ => ?_
  grind [rowsOf]

private theorem reports_borrow (t : FloatType) (hb : b.hostBytes = .ok b.contents) (s : Span) :
    Reports P (borrow t b s) := by
  unfold borrow
  rw [hb]
  grind

/-- The buffer of an operand that has been checked is on the host. -/
private theorem reports_resolve (hx : c.validate x = .ok ()) (t : FloatType) (id : BufferId) (b : Buffer)
    (output : Tensor)
    (inPlace : Bool) : Reports P (resolve t (c.arena.erase id) b x output inPlace) := by
  unfold resolve
  refine reports_bind x.reports_span fun span => ?_
  split
  · grind
  · rename_i xid hid
    split
    · grind
    · split
      · rename_i other hother
        obtain ⟨b', -, hb', -, hhost, -⟩ := Context.buffer_of_validate hx hid
        rw [Table.get?_erase] at hother
        split at hother
        · simp at hother
        · obtain rfl := Option.some.inj (hb'.symm.trans hother)
          exact reports_borrow t hhost span
      · exact reports_reject.2 (.inl rfl)

@[grind ←] theorem reports_outputBytes (type : ElementType) (b : Buffer) (output : Tensor) :
    Reports P (outputBytes type b output) := by grind [outputBytes]

variable {α : Type}

@[grind ←] theorem reports_operand_get (x : Operand α) (ys : Array α) (i : Nat) : Reports P (x.get ys i) := by
  unfold Operand.get
  cases x with
  | elements xs => grind
  | output => grind

@[grind ←] theorem reports_put (xs : Array α) (i : Nat) (a : α) : Reports P (put xs i a) := by grind [put]

@[grind ←] theorem reports_updateEach {f : Array α → Nat → Result α} (h : ∀ xs i, Reports P (f xs i)) (xs : Array α) :
    Reports P (updateEach f xs) := by grind [updateEach]

@[grind ←] theorem reports_gemmCells (alpha : Binary t.accumulator) (a b : Array (Binary t.format))
    (beta : Option (Binary t.accumulator)) (e : GemmExtents) (c : Array (Binary t.format)) :
    Reports P (gemmCells t alpha a b beta e c) := by grind [gemmCells, dot]

end Kernel

namespace Context

open Kernel

variable {c : Context} {t : FloatType} {x y output : Tensor}

private theorem reports_lenient {α : Type} (skipped : α) {r : Result α} (h : Reports P r) :
    Reports P (c.lenient skipped r) := by
  unfold lenient
  split
  · split
    · exact reports_ok skipped
    · exact h
  · exact h

private theorem reports_runKernel {κ : Type} {plan : Result (Option κ)} {kernel : κ → Result Unit × Context}
    (hplan : Reports P plan) (hk : ∀ k, Reports P (kernel k).1) : Reports P (c.runKernel plan kernel).1 := by
  unfold runKernel
  cases plan with
  | error e => exact reports_lenient () (reports_error hplan)
  | ok found =>
    cases found with
    | none => exact reports_ok ()
    | some k => exact reports_lenient () (hk k)

private theorem reports_writeElements (ho : c.Admits P output)
    {kernel : Arena → Buffer → Result (Array (Binary t.format) → Result (Array (Binary t.format)))}
    (hk : ∀ id b, Reports P (kernel (c.arena.erase id) b))
    (hrun : ∀ id b run, kernel (c.arena.erase id) b = .ok run → ∀ xs, Reports P (run xs)) :
    Reports P (c.writeElements t output kernel).1 := by
  apply reports_withOutput ho
  intro id b
  cases h : kernel (c.arena.erase id) b with
  | error e => exact reports_of_eq (hk id b) h
  | ok run =>
    rw [ok_bind]
    refine reports_bind (reports_outputBytes _ b output) fun found => ?_
    exact reports_bind (hrun id b run h _) fun _ => reports_pure _

private theorem reports_writeRows (hx : c.Admits P x) (ho : c.Admits P output) (type : ElementType) (inner : Nat)
    (f : List (Binary t.format) → Nat) : Reports P (c.writeRows t type x output inner f).1 := by
  unfold writeRows
  cases hv : c.validate x with
  | error e => exact reports_of_eq (reports_validate hx) hv
  | ok _ =>
    exact reports_withOutput ho fun id b => reports_bind (reports_resolve hv t id b output false) fun _ => by grind

private theorem reports_map (hx : c.Admits P x) (ho : c.Admits P output)
    (g : (t : FloatType) → Binary t.accumulator → Binary t.accumulator) :
    Reports P (c.runKernel (do unlessEmpty output (← checkUnary x output)) fun t =>
      match c.validate x with
      | .error e => (.error e, c)
      | .ok _ => c.writeElements t output (mapKernel t x output (g t))).1 := by
  refine reports_runKernel (reports_bind (reports_checkUnary hx ho) fun t => reports_unlessEmpty output t) fun t => ?_
  cases hv : c.validate x with
  | error e => exact reports_of_eq (reports_validate hx) hv
  | ok _ =>
    refine reports_writeElements ho (fun id b => reports_bind (reports_resolve hv t id b output true) fun _ =>
      reports_pure _) fun id b run hrun xs => ?_
    obtain ⟨_, -, hrun⟩ := bind_eq_ok.1 hrun
    obtain rfl := pure_eq_ok.1 hrun
    exact reports_updateEach (fun ys i => by grind) xs

private theorem reports_binary (hx : c.Admits P x) (hy : c.Admits P y) (ho : c.Admits P output) (op : BinaryOp) :
    Reports P (c.binary op x y output).1 := by
  refine reports_runKernel (reports_bind (reports_checkUnary hx ho) fun t => reports_bind (reports_checkSecond x hy)
    fun _ => reports_unlessEmpty output t) fun t => ?_
  have hvalid : Reports P (do c.validate x; c.validate y; y.numel : Result Nat) := by grind
  simp only
  cases hv : (do c.validate x; c.validate y; y.numel : Result Nat) with
  | error e => exact reports_of_eq hvalid hv
  | ok count =>
    simp only [bind_eq_ok] at hv
    obtain ⟨_, hvx, _, hvy, -⟩ := hv
    show Reports P (c.writeElements t output (zipKernel t op x y output count)).1
    refine reports_writeElements ho (fun id b => reports_bind (reports_resolve hvx t id b output true) fun _ =>
      reports_bind (reports_resolve hvy t id b output (count != 1)) fun _ => reports_pure _)
      fun id b run hrun xs => ?_
    obtain ⟨left, -, hrun⟩ := bind_eq_ok.1 hrun
    obtain ⟨right, -, hrun⟩ := bind_eq_ok.1 hrun
    obtain rfl := pure_eq_ok.1 hrun
    simp only
    split
    · refine reports_bind (by grind) fun single => reports_updateEach (fun ys i => ?_) xs
      cases single <;> grind
    · refine reports_bind (by grind) fun single => reports_updateEach (fun ys i => ?_) xs
      cases single <;> grind

private theorem reports_gemm (hx : c.Admits P x) (hy : c.Admits P y) (ho : c.Admits P output)
    (alpha beta : Binary .double) : Reports P (c.gemm alpha x y beta output).1 := by
  refine reports_runKernel (reports_bind (reports_checkGemm hx hy ho) fun k => reports_unlessEmpty output k)
    fun k => ?_
  have hvalid : Reports P (do c.validate x; c.validate y : Result Unit) := by grind
  simp only
  cases hv : (do c.validate x; c.validate y : Result Unit) with
  | error e => exact reports_of_eq hvalid hv
  | ok _ =>
    obtain ⟨_, hvx, hvy⟩ := bind_eq_ok.1 hv
    refine reports_writeElements ho (fun id b => reports_bind (reports_resolve hvx k.1 id b output false) fun _ =>
      reports_bind (reports_resolve hvy k.1 id b output false) fun _ => reports_pure _) fun id b run hrun xs => ?_
    obtain ⟨_, -, hrun⟩ := bind_eq_ok.1 hrun
    obtain ⟨_, -, hrun⟩ := bind_eq_ok.1 hrun
    obtain rfl := pure_eq_ok.1 hrun
    exact reports_gemmCells _ _ _ _ _ xs

theorem reports_launch {call : KernelCall Tensor} (h : ∀ t ∈ call.toList, c.Admits P t) :
    Reports P (c.launch call).1 := by
  cases call with
  | unary op x o =>
    exact reports_map (h x (by simp [KernelCall.toList])) (h o (by simp [KernelCall.toList])) fun t => op.apply
  | binary op x y o =>
    exact reports_binary (h x (by simp [KernelCall.toList])) (h y (by simp [KernelCall.toList]))
      (h o (by simp [KernelCall.toList])) op
  | scalarOp op x rhs o =>
    exact reports_map (h x (by simp [KernelCall.toList])) (h o (by simp [KernelCall.toList]))
      fun t a => op.apply a (t.ofDouble rhs.toDouble)
  | reduceLast op x o =>
    have hx := h x (by simp [KernelCall.toList])
    have ho := h o (by simp [KernelCall.toList])
    exact reports_runKernel (reports_bind (reports_checkRows hx ho) fun _ => by grind) fun _ =>
      reports_writeRows hx ho _ _ _
  | argmax x o =>
    have hx := h x (by simp [KernelCall.toList])
    have ho := h o (by simp [KernelCall.toList])
    exact reports_runKernel (reports_bind (reports_checkRows hx ho) fun _ => by grind) fun _ =>
      reports_writeRows hx ho _ _ _
  | gemm alpha a b beta o =>
    exact reports_gemm (h a (by simp [KernelCall.toList])) (h b (by simp [KernelCall.toList]))
      (h o (by simp [KernelCall.toList])) alpha beta
  | matmul a b o =>
    exact reports_gemm (h a (by simp [KernelCall.toList])) (h b (by simp [KernelCall.toList]))
      (h o (by simp [KernelCall.toList])) _ _

theorem reports_reduceAll (op : ReduceOp) (h : c.Admits P x) : Reports P (c.reduceAll op x) := by
  refine reports_lenient _ (reports_bind (reports_checkOperand h) fun _ => reports_bind (reports_checkFloat x) fun t =>
    reports_bind x.reports_numel fun n => ?_)
  split
  · exact reports_pure _
  · cases hfound : c.check x with
    | error e => exact reports_of_eq (reports_check h) hfound
    | ok found =>
      cases found with
      | none => exact reports_halt _
      | some b =>
        rw [ok_bind]
        exact reports_bind x.reports_span fun span =>
          reports_bind (reports_borrow t (hostBytes_of_check hfound) span) fun _ => reports_pure _

end Context

end StridedTensor
