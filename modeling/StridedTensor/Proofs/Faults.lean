import StridedTensor.Proofs.MatMul

/-!
# Where kernels can stop

A kernel multiplies extents, and such a product may leave 64 bits. Every operand is tested for contiguity before
anything else is done with it, and that test is the only place where a call can stop (`launch_avoids`): the counts
that are computed later are known to fit, and no loop asks for an element that is not there. So nothing stops a
call while its output is detached from the arena, and the output is always put back.
-/

namespace StridedTensor

namespace KernelCall

/-- The tensors that a call is given. -/
def toList {τ : Type} : KernelCall τ → List τ
  | unary _ x o => [x, o]
  | binary _ x y o => [x, y, o]
  | scalarOp _ x _ o => [x, o]
  | reduceLast _ x o => [x, o]
  | argmax x o => [x, o]
  | gemm _ x y _ o => [x, y, o]
  | matmul x y o => [x, y, o]

theorem output_mem_toList {τ : Type} (call : KernelCall τ) : call.output ∈ call.toList := by
  cases call <;> simp [output, toList]

end KernelCall

/-! ### Checks -/

private theorem Tensor.numel_of_isContiguous {t : Tensor} {b : Bool} (h : t.isContiguous = .ok b) :
    ∃ n, t.numel = .ok n := by
  unfold isContiguous Layout.isContiguous Layout.isPacked at h
  obtain ⟨n, hn, -⟩ := Result.bind_eq_ok.1 h
  exact ⟨n, hn⟩

namespace Kernel

variable {x y output : Tensor} {f : Fault}

private theorem numel_of_checkOperand (h : checkOperand x = .ok ()) : ∃ n, x.numel = .ok n :=
  Tensor.numel_of_isContiguous (checkOperand_eq_ok.1 h).2

private theorem checkUnary_avoids (hx : x.isContiguous.Avoids f) (ho : output.isContiguous.Avoids f) :
    (checkUnary x output).Avoids f := by
  unfold checkUnary
  refine .bind (checkOperand_avoids hx) fun _ _ => .bind (checkOperand_avoids ho) fun _ _ =>
    .bind (checkFloat_avoids x) fun _ _ => .bind (checkType_avoids x output) fun _ _ =>
    .bind (Tensor.numel_avoids_of_isContiguous hx) fun n _ =>
    .bind (Tensor.numel_avoids_of_isContiguous ho) fun m _ => ?_
  show (if n ≠ m then Result.reject (.count n m) else pure _ : Result FloatType).Avoids f
  split
  · exact .reject _
  · exact .ok _

private theorem checkSecond_avoids (hx : x.isContiguous.Avoids f) (hy : y.isContiguous.Avoids f) :
    (checkSecond x y).Avoids f := by
  unfold checkSecond
  refine .bind (checkOperand_avoids hy) fun _ _ => .bind (checkType_avoids x y) fun _ _ =>
    .bind (Tensor.numel_avoids_of_isContiguous hy) fun n _ =>
    .bind (Tensor.numel_avoids_of_isContiguous hx) fun m _ => ?_
  split
  · exact .reject _
  · exact .ok _

private theorem checkIndex_avoids (x : Tensor) : (checkIndex x).Avoids f := by
  unfold checkIndex
  split
  · exact .ok _
  · exact .reject _

/-- If the product of all extents fits, then so does that of all but the last. -/
theorem product?_dropLast {ns : List Nat} {n : Nat} (h : Word.product? ns = some n) :
    ∃ m, Word.product? ns.dropLast = some m := by
  rcases List.eq_nil_or_concat ns with rfl | ⟨ns, n, rfl⟩
  · exact ⟨1, rfl⟩
  · rw [List.concat_eq_append] at h ⊢
    rw [List.dropLast_concat]
    unfold Word.product? at h ⊢
    rw [List.foldlM_append, Option.bind_eq_bind, Option.bind_eq_some_iff] at h
    obtain ⟨m, hm, -⟩ := h
    exact ⟨m, hm⟩

private theorem rowsOf_avoids {n : Nat} (hn : x.numel = .ok n) : (rowsOf x).Avoids f := by
  obtain ⟨m, hm⟩ := product?_dropLast (Result.ofWord?_eq_ok.1 hn)
  unfold rowsOf
  split
  · rw [hm]
    exact .ok _
  · exact .reject _

private theorem checkRows_avoids (hx : x.isContiguous.Avoids f) (ho : output.isContiguous.Avoids f) :
    (checkRows x output).Avoids f := by
  unfold checkRows
  refine .bind (checkOperand_avoids hx) fun _ hcheck => .bind (checkOperand_avoids ho) fun _ _ =>
    .bind (checkFloat_avoids x) fun _ _ => ?_
  obtain ⟨n, hn⟩ := numel_of_checkOperand hcheck
  refine .bind (rowsOf_avoids hn) fun _ _ => .bind (Tensor.numel_avoids_of_isContiguous ho) fun _ _ => ?_
  split
  · exact .reject _
  · exact .ok _

private theorem unlessEmpty_avoids {κ : Type} {check : Result κ} (hc : check.Avoids f)
    (ho : output.isContiguous.Avoids f) :
    (do unlessEmpty output (← check)).Avoids f :=
  .bind hc fun _ _ => .bind (Tensor.numel_avoids_of_isContiguous ho) fun _ _ => .ok _

theorem checkRows_eq_ok {t : FloatType} {outer inner : Nat} (h : checkRows x output = .ok (t, outer, inner)) :
    x.isContiguous = .ok true ∧ output.isContiguous = .ok true ∧ x.type = t.element := by
  unfold checkRows at h
  simp only [Result.bind_eq_ok] at h
  obtain ⟨_, hx, _, ho, t', ht, ⟨m, k⟩, -, n, -, h⟩ := h
  by_cases hne : n = m
  · simp only [hne, ne_eq, not_true, if_false, Result.pure_eq_ok, Prod.mk.injEq] at h
    obtain ⟨rfl, -, -⟩ := h
    exact ⟨(checkOperand_eq_ok.1 hx).2, (checkOperand_eq_ok.1 ho).2, checkFloat_eq_ok.1 ht⟩
  · simp [hne] at h

end Kernel

/-! ### Runs -/

namespace Context

open Kernel

variable {c : Context} {t : FloatType} {x y output : Tensor} {f : Fault}

private theorem validate_avoids_of_isContiguous (hx : x.isContiguous = .ok true) : (c.validate x).Avoids f :=
  validate_avoids (Tensor.numel_avoids_of_isContiguous (by rw [hx]; exact .ok _))

/-- A kernel that updates every element stops only where it resolves its operands. -/
private theorem writeElements_updates_avoids
    {kernel : Arena → Buffer → Result (Array (Binary t.format) → Result (Array (Binary t.format)))}
    {value : Nat → Option (Binary t.format)} {n : Nat} (hc : output.isContiguous = .ok true)
    (ht : output.type = t.element) (hn : output.numel = .ok n)
    (hk : ∀ id b, c.Ready t output → output.buffer = some id → c.arena.get? id = some b →
      (kernel (c.arena.erase id) b).Avoids f ∧
        ∀ run, kernel (c.arena.erase id) b = .ok run → c.Updates t output n value run) :
    (c.writeElements t output kernel).1.Avoids f := by
  apply writeElements_avoids hc ht
  intro id b ho hid hb
  obtain ⟨havoids, hupdates⟩ := hk id b ho hid hb
  refine .bind havoids fun run hrun => ?_
  obtain ⟨zs, hzs, -⟩ := (hupdates run hrun).run_eq hn
  rw [hzs]
  exact .ok _

private theorem resolve_avoids {id : BufferId} {b : Buffer} (hx : c.Ready t x) (ho : c.Ready t output)
    (hid : output.buffer = some id) (hb : c.arena.get? id = some b) (inPlace : Bool) :
    (resolve t (c.arena.erase id) b x output inPlace).Avoids f := by
  rcases resolve_eq hx ho hid hb inPlace with ⟨operand, h, -⟩ | h
  · rw [h]
    exact .ok _
  · rw [h]
    exact .reject _

private theorem runKernel_map_avoids {g : (t : FloatType) → Binary t.accumulator → Binary t.accumulator}
    (hx : x.isContiguous.Avoids f) (ho : output.isContiguous.Avoids f) :
    (c.runKernel (do unlessEmpty output (← checkUnary x output)) fun t =>
      match c.validate x with
      | .error e => (.error e, c)
      | .ok _ => c.writeElements t output (mapKernel t x output (g t))).1.Avoids f := by
  apply runKernel_avoids (unlessEmpty_avoids (checkUnary_avoids hx ho) ho)
  intro t hplan
  obtain ⟨hcheck, -⟩ := unlessEmpty_eq_some hplan
  obtain ⟨hxc, hoc, hxt, hot, n, hxn, hn⟩ := checkUnary_eq_ok hcheck
  have hvalid := validate_avoids_of_isContiguous (c := c) (f := f) hxc
  cases hv : c.validate x with
  | error e =>
    rw [hv] at hvalid
    exact hvalid
  | ok _ =>
    have hx : c.Ready t x := ⟨hv, hxc, hxt⟩
    exact writeElements_updates_avoids hoc hot hn fun id b ho hid hb =>
      ⟨.bind (resolve_avoids hx ho hid hb true) fun _ _ => .ok _, fun run => mapKernel_updates hx ho hxn hid hb⟩

private theorem binary_avoids (op : BinaryOp) (hx : x.isContiguous.Avoids f) (hy : y.isContiguous.Avoids f)
    (ho : output.isContiguous.Avoids f) : (c.binary op x y output).1.Avoids f := by
  apply runKernel_avoids
  · exact .bind (checkUnary_avoids hx ho) fun _ _ => .bind (checkSecond_avoids hx hy) fun _ _ =>
      .bind (Tensor.numel_avoids_of_isContiguous ho) fun _ _ => .ok _
  · intro t hplan
    obtain ⟨t', hcheck, hplan⟩ := Result.bind_eq_ok.1 hplan
    obtain ⟨_, hsecond, hplan⟩ := Result.bind_eq_ok.1 hplan
    obtain ⟨m, -, hsome⟩ := unlessEmpty_eq_ok.1 hplan
    obtain rfl : t = t' := by
      split at hsome <;> simp_all
    obtain ⟨hxc, hoc, hxt, hot, n, hxn, hn⟩ := checkUnary_eq_ok hcheck
    obtain ⟨hyc, hxy, count, m', hyn, hxn', hcount⟩ := checkSecond_eq_ok hsecond
    obtain rfl : m' = n := by simpa [hxn] using hxn'.symm
    have hvalid : (do c.validate x; c.validate y; y.numel : Result Nat).Avoids f :=
      .bind (validate_avoids_of_isContiguous hxc) fun _ _ => .bind (validate_avoids_of_isContiguous hyc) fun _ _ =>
        Tensor.numel_avoids_of_isContiguous hy
    simp only
    cases hv : (do c.validate x; c.validate y; y.numel : Result Nat) with
    | error e =>
      rw [hv] at hvalid
      exact hvalid.error
    | ok count' =>
      simp only [Result.bind_eq_ok] at hv
      obtain ⟨_, hvx, _, hvy, hyn'⟩ := hv
      obtain rfl : count' = count := by simpa [hyn] using hyn'.symm
      have hx : c.Ready t x := ⟨hvx, hxc, hxt⟩
      have hy : c.Ready t y := ⟨hvy, hyc, hxy.symm.trans hxt⟩
      show (c.writeElements t output (zipKernel t op x y output count')).1.Avoids f
      exact writeElements_updates_avoids hoc hot hn fun id b ho hid hb =>
        ⟨.bind (resolve_avoids hx ho hid hb true) fun _ _ =>
          .bind (resolve_avoids hy ho hid hb (count' != 1)) fun _ _ => .ok _,
          fun run => zipKernel_updates hx hy ho hxn hyn hcount hid hb⟩

private theorem writeRows_avoids (hxc : x.isContiguous = .ok true) (hoc : output.isContiguous = .ok true)
    (hxt : x.type = t.element) (type : ElementType) (inner : Nat) (g : List (Binary t.format) → Nat) :
    (c.writeRows t type x output inner g).1.Avoids f := by
  have hvalid := validate_avoids_of_isContiguous (c := c) (f := f) hxc
  unfold writeRows
  cases hv : c.validate x with
  | error e =>
    rw [hv] at hvalid
    exact hvalid
  | ok _ =>
    apply withOutput_avoids (Tensor.numel_avoids_of_isContiguous (by rw [hoc]; exact .ok _))
    intro id b ho hid hb
    have hresolve : (resolve t (c.arena.erase id) b x output false).Avoids f := by
      rcases resolve_staged ⟨hv, hxc, hxt⟩ ho hid hb with h | h
      · rw [h]
        exact .ok _
      · rw [h]
        exact .reject _
    have hbytes : (outputBytes type b output).Avoids f := by
      rcases outputBytes_of_validate ho hid hb type with ⟨found, h⟩ | h
      · rw [h]
        exact .ok _
      · rw [h]
        exact .reject _
    exact .bind hresolve fun _ _ => .bind hbytes fun _ _ => .ok _

private theorem reduceLast_avoids (op : ReduceOp) (hx : x.isContiguous.Avoids f) (ho : output.isContiguous.Avoids f) :
    (c.reduceLast op x output).1.Avoids f := by
  apply runKernel_avoids
  · exact .bind (checkRows_avoids hx ho) fun _ _ => .bind (checkType_avoids x output) fun _ _ => .ok _
  · rintro ⟨t, inner⟩ hplan
    obtain ⟨⟨t', outer, inner'⟩, hcheck, hplan⟩ := Result.bind_eq_ok.1 hplan
    obtain ⟨_, -, hplan⟩ := Result.bind_eq_ok.1 hplan
    obtain ⟨rfl, rfl⟩ : t' = t ∧ inner' = inner := by
      simp only [Result.pure_eq_ok] at hplan
      split at hplan <;> simp_all
    obtain ⟨hxc, hoc, hxt⟩ := checkRows_eq_ok hcheck
    exact writeRows_avoids hxc hoc hxt _ _ _

private theorem argmax_avoids (hx : x.isContiguous.Avoids f) (ho : output.isContiguous.Avoids f) :
    (c.argmax x output).1.Avoids f := by
  apply runKernel_avoids
  · exact .bind (checkRows_avoids hx ho) fun _ _ => .bind (checkIndex_avoids output) fun _ _ => .ok _
  · rintro ⟨t, index, inner⟩ hplan
    obtain ⟨⟨t', outer, inner'⟩, hcheck, hplan⟩ := Result.bind_eq_ok.1 hplan
    obtain ⟨_, -, hplan⟩ := Result.bind_eq_ok.1 hplan
    obtain rfl : t' = t := by
      simp only [Result.pure_eq_ok] at hplan
      split at hplan <;> simp_all
    obtain ⟨hxc, hoc, hxt⟩ := checkRows_eq_ok hcheck
    exact writeRows_avoids hxc hoc hxt _ _ _

/-- A kernel call stops only where the test for contiguity of one of its tensors stops. -/
theorem launch_avoids {call : KernelCall Tensor} (h : ∀ t ∈ call.toList, t.isContiguous.Avoids f) :
    (c.launch call).1.Avoids f := by
  cases call with
  | unary op x o =>
    exact runKernel_map_avoids (g := fun t => op.apply) (h x (by simp [KernelCall.toList]))
      (h o (by simp [KernelCall.toList]))
  | binary op x y o =>
    exact binary_avoids op (h x (by simp [KernelCall.toList])) (h y (by simp [KernelCall.toList]))
      (h o (by simp [KernelCall.toList]))
  | scalarOp op x rhs o =>
    exact runKernel_map_avoids (g := fun t a => op.apply a (t.ofDouble rhs.toDouble))
      (h x (by simp [KernelCall.toList])) (h o (by simp [KernelCall.toList]))
  | reduceLast op x o =>
    exact reduceLast_avoids op (h x (by simp [KernelCall.toList])) (h o (by simp [KernelCall.toList]))
  | argmax x o => exact argmax_avoids (h x (by simp [KernelCall.toList])) (h o (by simp [KernelCall.toList]))
  | gemm alpha a b beta o =>
    exact c.gemm_avoids_of_isContiguous alpha beta (h a (by simp [KernelCall.toList]))
      (h b (by simp [KernelCall.toList])) (h o (by simp [KernelCall.toList]))
  | matmul a b o =>
    exact c.gemm_avoids_of_isContiguous _ _ (h a (by simp [KernelCall.toList])) (h b (by simp [KernelCall.toList]))
      (h o (by simp [KernelCall.toList]))

/-- The same holds of a reduction to one scalar. -/
theorem reduceAll_avoids (op : ReduceOp) (hx : x.isContiguous.Avoids f) : (c.reduceAll op x).Avoids f := by
  have hnumel := Tensor.numel_avoids_of_isContiguous hx
  refine lenient_avoids (.bind (checkOperand_avoids hx) fun _ hcheck => .bind (checkFloat_avoids x) fun t ht =>
    .bind hnumel fun n hn => ?_)
  split
  · exact .ok _
  · rename_i hne
    refine .bind (check_avoids hnumel) fun found hfound => ?_
    have hready : c.Ready t x :=
      ⟨validate_eq_ok.2 ⟨found, hfound⟩, (checkOperand_eq_ok.1 hcheck).2, checkFloat_eq_ok.1 ht⟩
    cases hid : x.buffer with
    | none => exact absurd ((Tensor.numel_eq hn).trans (hready.prod_eq_zero hid)) hne
    | some id =>
      obtain ⟨b, -, hb, hcheck, -⟩ := buffer_of_validate hready.valid hid
      obtain rfl : found = some b := by simpa [hcheck] using hfound.symm
      simp only [hready.span_eq, Result.ok_bind, hready.borrow_eq hid hb]
      split
      · exact .ok _
      · exact .reject _

end Context

end StridedTensor
