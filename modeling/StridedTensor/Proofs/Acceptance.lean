import StridedTensor.Proofs.Alignment
import StridedTensor.Proofs.Faults

/-!
# What kernels accept

A strict context carries out a kernel call exactly if the operands are as the kernel asks for (`KernelCall.Accepts`),
and otherwise reports which precondition failed (`Session.decides_of_offers`). Nothing else goes wrong with tensors that
a context has made and views of them: the places of their elements are in range, aligned and inside the buffer, so what
comes after the checks of a kernel succeeds.
-/

namespace StridedTensor

/-! ### Checks that decide -/

namespace Result

variable {α β : Type} {P Q : Prop} {r : Result α}

/-- The result is a value if `P` holds, and otherwise reports a precondition that failed. -/
structure Decides (r : Result α) (P : Prop) : Prop where
  accept : P → ∃ a, r = .ok a
  refuse : ¬ P → ∃ e : TensorError, e.isPrecondition = true ∧ r = reject e

namespace Decides

private theorem congr (h : r.Decides P) (hpq : P ↔ Q) : r.Decides Q :=
  ⟨fun hq => h.accept (hpq.2 hq), fun hq => h.refuse fun hp => hq (hpq.1 hp)⟩

private theorem of_exists (h : ∃ a, r = .ok a) (hp : P) : r.Decides P := ⟨fun _ => h, fun hn => absurd hp hn⟩

private theorem of_ok {a : α} (h : r = .ok a) (hp : P) : r.Decides P := of_exists ⟨a, h⟩ hp

private theorem of_reject {e : TensorError} (he : e.isPrecondition = true) (h : r = reject e) (hp : ¬ P) :
    r.Decides P :=
  ⟨fun hyes => absurd hyes hp, fun _ => ⟨e, he, h⟩⟩

private theorem of_eq_ok (h : r.Decides P) {a : α} (ha : r = .ok a) : P := by
  by_contra hp
  obtain ⟨e, -, he⟩ := h.refuse hp
  exact reject_ne_ok e a (he.symm.trans ha)

/-- One check after another. The second one may rely on what the first one has found. -/
private theorem bind {f : α → Result β} (h : r.Decides P) (hf : ∀ a, r = .ok a → (f a).Decides Q) :
    (r >>= f).Decides (P ∧ Q) := by
  by_cases hp : P
  · obtain ⟨a, rfl⟩ := h.accept hp
    exact (hf a rfl).congr (by simp [hp])
  · obtain ⟨e, he, rfl⟩ := h.refuse hp
    exact .of_reject he rfl fun hpq => hp hpq.1

private theorem ite_reject {c : Prop} [Decidable c] {e : TensorError} (he : e.isPrecondition = true) (h : r.Decides P) :
    (if c then reject e else r).Decides (¬ c ∧ P) := by
  by_cases hc : c
  · rw [if_pos hc]
    exact .of_reject he rfl fun hcp => hcp.1 hc
  · rw [if_neg hc]
    exact h.congr (by simp [hc])

end Decides

end Result

open Result

namespace Kernel

variable {c : Context} {x y output : Tensor}

private theorem checkOperand_decides (hx : c.Usable x) : (checkOperand x).Decides (x.isContiguous = .ok true) := by
  obtain ⟨b, hb⟩ := hx.contiguous
  have hcpu := (Tensor.validate_eq_ok.1 (Context.validate_iff.1 hx.valid).1).1
  unfold checkOperand
  rw [hcpu, hb]
  cases b with
  | true => exact .of_ok rfl rfl
  | false => exact .of_reject rfl rfl (by simp)

private theorem checkFloat_decides (x : Tensor) : (checkFloat x).Decides (x.type.float?.isSome = true) := by
  unfold checkFloat
  split
  · rename_i t ht
    exact .of_ok rfl (by rw [ht]; rfl)
  · rename_i ht
    exact .of_reject rfl rfl (by simp [ht])

private theorem checkIndex_decides (x : Tensor) : (checkIndex x).Decides (x.type.index?.isSome = true) := by
  unfold checkIndex
  split
  · rename_i t ht
    exact .of_ok rfl (by rw [ht]; rfl)
  · rename_i ht
    exact .of_reject rfl rfl (by simp [ht])

theorem checkIndex_eq_ok {index : IndexType} (h : checkIndex x = .ok index) : x.type = index.element := by
  unfold checkIndex at h
  split at h
  · rename_i index' hindex
    obtain rfl := Except.ok.inj h
    cases hx : x.type <;> simp [hx, ElementType.index?] at hindex <;> subst hindex <;> rfl
  · simp at h

private theorem checkType_decides (x y : Tensor) : (checkType x y).Decides (x.type = y.type) := by
  unfold checkType
  split
  · rename_i h
    exact .of_ok rfl h
  · rename_i h
    exact .of_reject rfl rfl h

/-- What a kernel asks for that writes an element for each element of `x`. -/
structure Elementwise (x o : Tensor) : Prop where
  operand : x.isContiguous = .ok true
  output : o.isContiguous = .ok true
  float : x.type.float?.isSome = true
  type : x.type = o.type
  count : x.shape.toList.prod = o.shape.toList.prod

private theorem checkUnary_decides (hx : c.Usable x) (ho : c.Usable output) :
    (checkUnary x output).Decides (Elementwise x output) := by
  have hchecks : (checkUnary x output).Decides (x.isContiguous = .ok true ∧ output.isContiguous = .ok true ∧
      x.type.float?.isSome = true ∧ x.type = output.type ∧
      ¬ x.shape.toList.prod ≠ output.shape.toList.prod ∧ True) := by
    unfold checkUnary
    refine .bind (checkOperand_decides hx) fun _ _ => .bind (checkOperand_decides ho) fun _ _ =>
      .bind (checkFloat_decides x) fun t _ => .bind (checkType_decides x output) fun _ _ => ?_
    rw [hx.numel, ho.numel]
    exact .ite_reject rfl (.of_ok rfl trivial)
  refine hchecks.congr ⟨fun ⟨hxc, hoc, ht, hty, hn, _⟩ => ⟨hxc, hoc, ht, hty, not_not.1 hn⟩, fun h => ?_⟩
  exact ⟨h.operand, h.output, h.float, h.type, not_not.2 h.count, trivial⟩

/-- What a kernel asks for beyond that if it has a second operand. -/
structure Second (x y : Tensor) : Prop where
  operand : y.isContiguous = .ok true
  type : x.type = y.type
  count : y.shape.toList.prod = x.shape.toList.prod ∨ y.shape.toList.prod = 1

private theorem checkSecond_decides (hx : c.Usable x) (hy : c.Usable y) : (checkSecond x y).Decides (Second x y) := by
  have hchecks : (checkSecond x y).Decides (y.isContiguous = .ok true ∧ x.type = y.type ∧
      ¬ (y.shape.toList.prod ≠ x.shape.toList.prod ∧ y.shape.toList.prod ≠ 1) ∧ True) := by
    unfold checkSecond
    refine .bind (checkOperand_decides hy) fun _ _ => .bind (checkType_decides x y) fun _ _ => ?_
    rw [hx.numel, hy.numel]
    exact .ite_reject rfl (.of_ok rfl trivial)
  refine hchecks.congr ⟨fun ⟨hyc, hty, hn, _⟩ => ⟨hyc, hty, by tauto⟩, fun h => ?_⟩
  exact ⟨h.operand, h.type, by have := h.count; tauto, trivial⟩

/-- What a kernel asks for that writes an element for each row of `x`. -/
structure Rows (x o : Tensor) : Prop where
  operand : x.isContiguous = .ok true
  output : o.isContiguous = .ok true
  float : x.type.float?.isSome = true
  rows : ∃ outer inner, x.shape.toList = outer ++ [inner] ∧ o.shape.toList.prod = outer.prod

private theorem checkRows_decides (hx : c.Usable x) (ho : c.Usable output) :
    (checkRows x output).Decides (Rows x output) := by
  have hchecks : (checkRows x output).Decides (x.isContiguous = .ok true ∧ output.isContiguous = .ok true ∧
      x.type.float?.isSome = true ∧
      ∃ outer inner, x.shape.toList = outer ++ [inner] ∧ output.shape.toList.prod = outer.prod) := by
    unfold checkRows
    refine .bind (checkOperand_decides hx) fun _ _ => .bind (checkOperand_decides ho) fun _ _ =>
      .bind (checkFloat_decides x) fun t _ => ?_
    rw [ho.numel]
    rcases List.eq_nil_or_concat x.shape.toList with hnil | ⟨outer, inner, hrows⟩
    · unfold rowsOf
      rw [hnil]
      exact .of_reject rfl rfl (by simp)
    · rw [List.concat_eq_append] at hrows
      obtain ⟨m, hm⟩ := product?_dropLast (Result.ofWord?_eq_ok.1 hx.numel)
      rw [hrows, List.dropLast_concat] at hm
      obtain rfl := Word.product?_eq hm
      have hrowsOf : rowsOf x = .ok (outer.prod, inner) := by
        unfold rowsOf
        rw [hrows, List.getLast?_concat, List.dropLast_concat]
        simp only [hm]
        rfl
      rw [hrowsOf]
      refine (Decides.ite_reject rfl (.of_ok rfl trivial)).congr ⟨fun ⟨hn, _⟩ => ?_, ?_⟩
      · exact ⟨outer, inner, hrows, not_not.1 hn⟩
      rintro ⟨outer', inner', hrows', hn⟩
      obtain rfl : outer = outer' := (List.append_inj' (hrows.symm.trans hrows') rfl).1
      exact ⟨not_not.2 hn, trivial⟩
  exact hchecks.congr ⟨fun ⟨hxc, hoc, ht, hr⟩ => ⟨hxc, hoc, ht, hr⟩, fun h => ⟨h.operand, h.output, h.float, h.rows⟩⟩

/-- What a multiplication asks for. -/
structure Matrices (a b o : Tensor) : Prop where
  left : a.isContiguous = .ok true
  right : b.isContiguous = .ok true
  output : o.isContiguous = .ok true
  float : a.type.float?.isSome = true
  right_type : a.type = b.type
  output_type : a.type = o.type
  shapes : ∃ m k n, a.shape.toList = [m, k] ∧ b.shape.toList = [k, n] ∧ o.shape.toList = [m, n]

private theorem checkGemm_decides (hx : c.Usable x) (hy : c.Usable y) (ho : c.Usable output) :
    (checkGemm x y output).Decides (Matrices x y output) := by
  have hchecks : (checkGemm x y output).Decides (x.isContiguous = .ok true ∧ y.isContiguous = .ok true ∧
      output.isContiguous = .ok true ∧ x.type.float?.isSome = true ∧ x.type = y.type ∧ x.type = output.type ∧
      ∃ m k n, x.shape.toList = [m, k] ∧ y.shape.toList = [k, n] ∧ output.shape.toList = [m, n]) := by
    unfold checkGemm
    refine .bind (checkOperand_decides hx) fun _ _ => .bind (checkOperand_decides hy) fun _ _ =>
      .bind (checkOperand_decides ho) fun _ _ => .bind (checkFloat_decides x) fun t _ =>
      .bind (checkType_decides x y) fun _ _ => .bind (checkType_decides x output) fun _ _ => ?_
    split
    · rename_i m k k' n hsx hsy
      obtain ⟨expected, hexpected⟩ : ∃ expected : Shape, Dims.ofList [m, n] = .ok expected := ⟨_, rfl⟩
      have hoshape : output.shape = expected ↔ output.shape.toList = [m, n] := by
        rw [← Dims.toList_ofList hexpected, Dims.toList_inj]
      rw [hexpected]
      refine (Decides.ite_reject rfl (.ite_reject rfl (.of_ok rfl trivial))).congr ⟨fun ⟨hk, hs, _⟩ => ?_, ?_⟩
      · obtain rfl := not_not.1 hk
        exact ⟨m, k, n, hsx, hsy, hoshape.1 (not_not.1 hs)⟩
      · rintro ⟨m', l, n', hsx', hsy', hso⟩
        obtain ⟨rfl, rfl⟩ : m = m' ∧ k = l := by simpa [hsx] using hsx'
        obtain ⟨rfl, rfl⟩ : k' = k ∧ n = n' := by simpa [hsy] using hsy'
        exact ⟨not_not.2 rfl, not_not.2 (hoshape.2 hso), trivial⟩
    · rename_i hshapes
      refine .of_reject rfl rfl ?_
      rintro ⟨m, k, n, hsx, hsy, -⟩
      exact hshapes m k k n hsx hsy
  exact hchecks.congr ⟨fun ⟨h₁, h₂, h₃, h₄, h₅, h₆, h₇⟩ => ⟨h₁, h₂, h₃, h₄, h₅, h₆, h₇⟩,
    fun h => ⟨h.left, h.right, h.output, h.float, h.right_type, h.output_type, h.shapes⟩⟩

end Kernel

/-! ### What comes after the checks -/

namespace Context

open Kernel

variable {c : Context} {t : FloatType} {x y output : Tensor} {id : BufferId} {b : Buffer} {s : Span}

private theorem runKernel_decides {κ : Type} {P : Prop} (hs : c.strict = true) {plan : Result (Option κ)}
    {kernel : κ → Result Unit × Context} (hplan : plan.Decides P)
    (hk : ∀ k, plan = .ok (some k) → (kernel k).1 = .ok ()) : (c.runKernel plan kernel).1.Decides P := by
  unfold runKernel
  by_cases hp : P
  · obtain ⟨found, rfl⟩ := hplan.accept hp
    cases found with
    | none => exact .of_ok rfl hp
    | some k => exact .of_ok (by simp only [lenient_of_strict hs]; exact hk k rfl) hp
  · obtain ⟨e, he, rfl⟩ := hplan.refuse hp
    exact .of_reject he (by exact lenient_of_strict hs () (Result.reject e)) hp

namespace Usable

/-- The elements of a contiguous operand can be read where they lie. -/
private theorem isAligned (h : c.Usable x) (hc : x.isContiguous = .ok true) (hs : x.span = .ok s)
    (hid : x.buffer = some id) (hb : c.arena.get? id = some b) : Kernel.isAligned b s x.type = true := by
  obtain ⟨id', b', hid', hb', hdvd⟩ := h.buffer
  obtain rfl : id = id' := Option.some.inj (hid.symm.trans hid')
  obtain rfl : b = b' := Option.some.inj (hb.symm.trans hb')
  obtain rfl := Tensor.span_of_isContiguous hc hs
  unfold Kernel.isAligned Span.length ElementType.alignment
  simp only [Nat.add_sub_cancel_left, Nat.mul_mod_right, Nat.mod_eq_zero_of_dvd hdvd]
  rfl

private theorem outputBytes_ne_misaligned (h : c.Usable output) (hc : output.isContiguous = .ok true)
    (hid : output.buffer = some id) (hb : c.arena.get? id = some b) :
    Kernel.outputBytes output.type b output ≠ Result.reject (.misaligned output.type) := by
  obtain ⟨s, hs⟩ := (hosts_of_validate h.valid).span
  unfold Kernel.outputBytes
  rw [hs, Result.ok_bind]
  split
  · simp [Result.reject]
  · rw [if_pos (h.isAligned hc hs hid hb)]
    simp [Result.reject, pure, Except.pure]

private theorem exists_borrow (hx : c.Usable x) (hxc : x.isContiguous = .ok true) (hxt : x.type = t.element)
    (hs : x.span = .ok s) (hid : x.buffer = some id) (hb : c.arena.get? id = some b) :
    ∃ operand, Kernel.borrow t b s = .ok operand := by
  have hready : c.Ready t x := ⟨hx.valid, hxc, hxt⟩
  have haligned := hx.isAligned hxc hs hid hb
  obtain ⟨b', _, hb', -, hhost, -⟩ := buffer_of_validate hx.valid hid
  obtain rfl : b = b' := Option.some.inj (hb.symm.trans hb')
  obtain rfl := Except.ok.inj (hs.symm.trans hready.span_eq)
  rw [hxt] at haligned
  have hread : discard b.hostBytes = .ok () := Result.discard_eq_ok.2 ⟨_, hhost⟩
  unfold Kernel.borrow
  simp only [hread, Result.ok_bind, hready.spanBytes?_eq hid hb, haligned, if_true]
  exact ⟨_, rfl⟩

theorem resolve_ne_misaligned (hx : c.Usable x) (hxc : x.isContiguous = .ok true) (hxt : x.type = t.element)
    (ho : c.validate output = .ok ()) (hid : output.buffer = some id) (inPlace : Bool) :
    Kernel.resolve t (c.arena.erase id) b x output inPlace ≠ Result.reject (.misaligned t.element) := by
  obtain ⟨s, hs⟩ := (hosts_of_validate hx.valid).span
  obtain ⟨s', hs'⟩ := (hosts_of_validate ho).span
  obtain ⟨xid, other, hxid, hother, -⟩ := hx.buffer
  unfold Kernel.resolve
  rw [hs, hs', hxid, hid]
  simp only [Result.ok_bind]
  by_cases hsame : xid = id
  · rw [if_pos (by rw [hsame])]
    split
    · simp [Result.reject, pure, Except.pure]
    · split <;> simp [Result.reject, pure, Except.pure]
  · obtain ⟨operand, hoperand⟩ := hx.exists_borrow hxc hxt hs hxid hother
    rw [if_neg (by simpa using hsame), Table.get?_erase, if_neg hsame, hother]
    simp [hoperand, Result.reject]

end Usable

/-- On an output that passes the check the outcome is that of the function. -/
theorem withOutput_fst {f : Arena → Buffer → Result Bytes} (hv : c.validate output = .ok ())
    (hid : output.buffer = some id) (hb : c.arena.get? id = some b) :
    (c.withOutput output f).1 = (f (c.arena.erase id) b).map fun _ => () := by
  obtain ⟨b', s, hb', hcheck, hhost, -⟩ := buffer_of_validate hv hid
  obtain rfl : b = b' := Option.some.inj (hb.symm.trans hb')
  unfold withOutput Arena.withOutput
  simp only [hcheck, hid, hb, hhost, Result.ok_bind]
  cases f (c.arena.erase id) b <;> rfl

private theorem withOutput_eq {f : Arena → Buffer → Result Bytes} (hv : c.validate output = .ok ())
    (hid : output.buffer = some id) (hb : c.arena.get? id = some b)
    (hf : ∃ contents, f (c.arena.erase id) b = .ok contents) : (c.withOutput output f).1 = .ok () := by
  obtain ⟨contents, hf⟩ := hf
  rw [withOutput_fst hv hid hb, hf]
  rfl

/-- On operands that have passed the checks a kernel runs to its end if its loop does. -/
private theorem writeElements_eq
    {kernel : Arena → Buffer → Result (Array (Binary t.format) → Result (Array (Binary t.format)))}
    (ho : c.Usable output) (hoc : output.isContiguous = .ok true) (hot : output.type = t.element)
    (hk : ∀ id b, output.buffer = some id → c.arena.get? id = some b →
      ∃ run zs, kernel (c.arena.erase id) b = .ok run ∧ run (c.floats t output) = .ok zs) :
    (c.writeElements t output kernel).1 = .ok () := by
  obtain ⟨id, b, hid, hb, -⟩ := ho.buffer
  obtain ⟨run, zs, hkernel, hrun⟩ := hk id b hid hb
  rcases outputBytes_eq ⟨ho.valid, hoc, hot⟩ hid hb with hbytes | hbytes
  · refine withOutput_eq ho.valid hid hb ?_
    simp only [hkernel, Result.ok_bind, hbytes, Ready.load_eq hid hb, hrun]
    exact ⟨_, rfl⟩
  · exact absurd hbytes (hot ▸ ho.outputBytes_ne_misaligned hoc hid hb)

private theorem Usable.exists_resolve (hx : c.Usable x) (hxc : x.isContiguous = .ok true) (hxt : x.type = t.element)
    (ho : c.Ready t output) (hid : output.buffer = some id) (hb : c.arena.get? id = some b) (inPlace : Bool) :
    ∃ operand, Kernel.resolve t (c.arena.erase id) b x output inPlace = .ok operand := by
  rcases Context.resolve_eq ⟨hx.valid, hxc, hxt⟩ ho hid hb inPlace with ⟨operand, h, -⟩ | h
  · exact ⟨operand, h⟩
  · exact absurd h (hx.resolve_ne_misaligned hxc hxt ho.valid hid inPlace)

/-- The plan of a kernel whose output has elements is to run. -/
private theorem unlessEmpty_of_usable {κ : Type} (ho : c.Usable output) (k : κ) :
    unlessEmpty output k = .ok (some k) := by
  unfold unlessEmpty
  rw [ho.numel, Result.ok_bind, if_neg ho.pos.ne']
  rfl

theorem unary_decides {g : (t : FloatType) → Binary t.accumulator → Binary t.accumulator} (hs : c.strict = true)
    (hx : c.Usable x) (ho : c.Usable output) :
    (c.runKernel (do unlessEmpty output (← checkUnary x output)) fun t =>
      match c.validate x with
      | .error e => (.error e, c)
      | .ok _ => c.writeElements t output (mapKernel t x output (g t))).1.Decides (Elementwise x output) := by
  refine runKernel_decides hs ?_ fun t hplan => ?_
  · refine ((checkUnary_decides hx ho).bind fun t _ => .of_ok (unlessEmpty_of_usable ho t) trivial).congr ?_
    exact .of_eq (and_true _)
  · obtain ⟨hcheck, -⟩ := unlessEmpty_eq_some hplan
    obtain ⟨hxc, hoc, hxt, hot, n, hxn, hn⟩ := checkUnary_eq_ok hcheck
    have hx' : c.Ready t x := ⟨hx.valid, hxc, hxt⟩
    have ho' : c.Ready t output := ⟨ho.valid, hoc, hot⟩
    simp only [hx.valid]
    refine writeElements_eq ho hoc hot fun id b hid hb => ?_
    obtain ⟨operand, hoperand⟩ := hx.exists_resolve hxc hxt ho' hid hb true
    obtain ⟨run, hrun⟩ : ∃ run, mapKernel t x output (g t) (c.arena.erase id) b = .ok run := by
      unfold mapKernel
      rw [hoperand]
      exact ⟨_, rfl⟩
    obtain ⟨zs, hzs, -⟩ := (mapKernel_updates hx' ho' hxn hid hb hrun).run_eq hn
    exact ⟨run, zs, hrun, hzs⟩

theorem binary_decides (op : BinaryOp) (hs : c.strict = true) (hx : c.Usable x) (hy : c.Usable y)
    (ho : c.Usable output) : (c.binary op x y output).1.Decides (Elementwise x output ∧ Second x y) := by
  refine runKernel_decides hs ?_ fun t hplan => ?_
  · refine ((checkUnary_decides hx ho).bind fun t _ => (checkSecond_decides hx hy).bind fun _ _ =>
      .of_ok (unlessEmpty_of_usable ho t) trivial).congr ?_
    rw [and_true]
  · obtain ⟨t', hfirst, hplan⟩ := Result.bind_eq_ok.1 hplan
    obtain ⟨_, hsecond, hplan⟩ := Result.bind_eq_ok.1 hplan
    rw [unlessEmpty_of_usable ho t'] at hplan
    obtain rfl : t' = t := by simpa using hplan
    obtain ⟨hxc, hoc, hxt, hot, n, hxn, hn⟩ := checkUnary_eq_ok hfirst
    obtain ⟨hyc, hxy, count, m, hyn, hxm, hcount⟩ := checkSecond_eq_ok hsecond
    obtain rfl : m = n := Except.ok.inj (hxm.symm.trans hxn)
    have hyt := hxy.symm.trans hxt
    have hx' : c.Ready t' x := ⟨hx.valid, hxc, hxt⟩
    have hy' : c.Ready t' y := ⟨hy.valid, hyc, hyt⟩
    have ho' : c.Ready t' output := ⟨ho.valid, hoc, hot⟩
    simp only [hx.valid, hy.valid, hyn, Result.ok_bind]
    refine writeElements_eq ho hoc hot fun id b hid hb => ?_
    obtain ⟨left, hleft⟩ := hx.exists_resolve hxc hxt ho' hid hb true
    obtain ⟨right, hright⟩ := hy.exists_resolve hyc hyt ho' hid hb (count != 1)
    exact exists_zipKernel op hx' hy' ho' hxn hn hyn hcount hid hb hleft hright

theorem gemm_decides (alpha beta : Binary .double) (hs : c.strict = true) (hx : c.Usable x) (hy : c.Usable y)
    (ho : c.Usable output) : (c.gemm alpha x y beta output).1.Decides (Matrices x y output) := by
  refine runKernel_decides hs ?_ fun (t, e) hplan => ?_
  · refine ((checkGemm_decides hx hy ho).bind fun p _ => .of_ok (unlessEmpty_of_usable ho p) trivial).congr ?_
    exact .of_eq (and_true _)
  · obtain ⟨hcheck, -⟩ := unlessEmpty_eq_some hplan
    obtain ⟨⟨hxc, hyc, hoc⟩, ⟨hxt, hyt, hot⟩, hsx, hsy, hso⟩ := checkGemm_eq_ok hcheck
    have hx' : c.Ready t x := ⟨hx.valid, hxc, hxt⟩
    have hy' : c.Ready t y := ⟨hy.valid, hyc, hyt⟩
    have ho' : c.Ready t output := ⟨ho.valid, hoc, hot⟩
    simp only [hx.valid, hy.valid, Result.ok_bind]
    refine writeElements_eq ho hoc hot fun id b hid hb => ?_
    obtain ⟨left, hleft⟩ := hx.exists_resolve hxc hxt ho' hid hb false
    obtain ⟨right, hright⟩ := hy.exists_resolve hyc hyt ho' hid hb false
    rcases gemmKernel_eq hx' hy' ho' hid hb hsx hsy hso (t.ofDouble alpha) (scale? t beta)
      with hrun | ⟨run, zs, hrun, hzs, -⟩
    · unfold gemmKernel at hrun
      rw [hleft, hright] at hrun
      simp [Result.reject, pure, Except.pure] at hrun
    · exact ⟨run, zs, hrun, hzs⟩

/-- The rows of an operand can be read, and their results can be stored. -/
private theorem writeRows_eq {type : ElementType} (hx : c.Usable x) (ho : c.Usable output)
    (hxc : x.isContiguous = .ok true)
    (hoc : output.isContiguous = .ok true) (hxt : x.type = t.element) (hot : output.type = type) (inner : Nat)
    (f : List (Binary t.format) → Nat) : (c.writeRows t type x output inner f).1 = .ok () := by
  obtain ⟨id, b, hid, hb, -⟩ := ho.buffer
  have hx' : c.Ready t x := ⟨hx.valid, hxc, hxt⟩
  unfold writeRows
  simp only [hx.valid]
  refine withOutput_eq ho.valid hid hb ?_
  rcases resolve_staged hx' ho.valid hid hb with hresolve | hresolve
  · rcases outputBytes_of_validate ho.valid hid hb type with ⟨found, hbytes⟩ | hbytes
    · simp only [hresolve, hbytes, Result.ok_bind]
      exact ⟨_, rfl⟩
    · exact absurd hbytes (hot ▸ ho.outputBytes_ne_misaligned hoc hid hb)
  · exact absurd hresolve (hx.resolve_ne_misaligned hxc hxt ho.valid hid false)

theorem reduceLast_decides (op : ReduceOp) (hs : c.strict = true) (hx : c.Usable x) (ho : c.Usable output) :
    (c.reduceLast op x output).1.Decides (Rows x output ∧ x.type = output.type) := by
  refine runKernel_decides hs ?_ fun (t, inner) hplan => ?_
  · refine ((checkRows_decides hx ho).bind fun (t, outer, inner) _ => (checkType_decides x output).bind fun _ _ =>
      .of_ok rfl trivial).congr ?_
    rw [and_true]
  · obtain ⟨⟨t', outer, inner'⟩, hcheck, hplan⟩ := Result.bind_eq_ok.1 hplan
    obtain ⟨_, htype, hplan⟩ := Result.bind_eq_ok.1 hplan
    obtain ⟨rfl, rfl⟩ : t' = t ∧ inner' = inner := by
      simp only [Result.pure_eq_ok] at hplan
      split at hplan <;> simp_all
    obtain ⟨hxc, hoc, hxt⟩ := checkRows_eq_ok hcheck
    exact writeRows_eq hx ho hxc hoc hxt ((checkType_eq_ok.1 htype).symm.trans hxt) _ _

theorem argmax_decides (hs : c.strict = true) (hx : c.Usable x) (ho : c.Usable output) :
    (c.argmax x output).1.Decides (Rows x output ∧ output.type.index?.isSome = true) := by
  refine runKernel_decides hs ?_ fun (t, index, inner) hplan => ?_
  · refine ((checkRows_decides hx ho).bind fun (t, outer, inner) _ => (checkIndex_decides output).bind fun index _ =>
      .of_ok rfl trivial).congr ?_
    rw [and_true]
  · obtain ⟨⟨t', outer, inner'⟩, hcheck, hplan⟩ := Result.bind_eq_ok.1 hplan
    obtain ⟨index', hindex, hplan⟩ := Result.bind_eq_ok.1 hplan
    obtain ⟨rfl, rfl, rfl⟩ : t' = t ∧ index' = index ∧ inner' = inner := by
      simp only [Result.pure_eq_ok] at hplan
      split at hplan <;> simp_all
    obtain ⟨hxc, hoc, hxt⟩ := checkRows_eq_ok hcheck
    exact writeRows_eq hx ho hxc hoc hxt (checkIndex_eq_ok hindex) _ _

theorem reduceAll_decides (op : ReduceOp) (hs : c.strict = true) (hx : c.Usable x) :
    (c.reduceAll op x).Decides (x.isContiguous = .ok true ∧ x.type.float?.isSome = true) := by
  unfold reduceAll
  rw [lenient_of_strict hs]
  refine ((checkOperand_decides hx).bind fun _ hoperand => (checkFloat_decides x).bind fun t hfloat =>
    .of_exists ?_ trivial).congr (by rw [and_true])
  obtain ⟨id, b, hid, hb, -⟩ := hx.buffer
  obtain ⟨b', s, hb', hcheck, -, hs, -⟩ := buffer_of_validate hx.valid hid
  obtain rfl : b = b' := Option.some.inj (hb.symm.trans hb')
  obtain ⟨operand, hoperand⟩ := hx.exists_borrow (checkOperand_eq_ok.1 hoperand).2 (checkFloat_eq_ok.1 hfloat) hs hid hb
  simp only [hx.numel, Result.ok_bind, if_neg hx.pos.ne', hcheck, hs, hoperand]
  exact ⟨_, rfl⟩

end Context

open Kernel in
/-- What a kernel asks of its operands. -/
def KernelCall.Accepts : KernelCall Tensor → Prop
  | unary _ x o | scalarOp _ x _ o => Elementwise x o
  | binary _ x y o => Elementwise x o ∧ Second x y
  | reduceLast _ x o => Rows x o ∧ x.type = o.type
  | argmax x o => Rows x o ∧ o.type.index?.isSome = true
  | gemm _ a b _ o | matmul a b o => Matrices a b o

theorem Context.launch_decides {c : Context} (hs : c.strict = true) {call : KernelCall Tensor}
    (h : ∀ v ∈ call.toList, c.Usable v) : (c.launch call).1.Decides call.Accepts := by
  cases call with
  | unary op x o =>
    exact unary_decides (g := fun t => op.apply) hs (h x (by simp [KernelCall.toList]))
      (h o (by simp [KernelCall.toList]))
  | binary op x y o =>
    exact binary_decides op hs (h x (by simp [KernelCall.toList])) (h y (by simp [KernelCall.toList]))
      (h o (by simp [KernelCall.toList]))
  | scalarOp op x rhs o =>
    exact unary_decides (g := fun t a => op.apply a (t.ofDouble rhs.toDouble)) hs
      (h x (by simp [KernelCall.toList])) (h o (by simp [KernelCall.toList]))
  | reduceLast op x o =>
    exact reduceLast_decides op hs (h x (by simp [KernelCall.toList])) (h o (by simp [KernelCall.toList]))
  | argmax x o =>
    exact argmax_decides hs (h x (by simp [KernelCall.toList])) (h o (by simp [KernelCall.toList]))
  | gemm alpha a b beta o =>
    exact gemm_decides alpha beta hs (h a (by simp [KernelCall.toList])) (h b (by simp [KernelCall.toList]))
      (h o (by simp [KernelCall.toList]))
  | matmul a b o =>
    exact gemm_decides _ _ hs (h a (by simp [KernelCall.toList])) (h b (by simp [KernelCall.toList]))
      (h o (by simp [KernelCall.toList]))

/-! ### Runs -/

namespace Session

variable {s : Session} {k : Nat} {c : Context}

/-- What a client can hand to context `k`: it has been made there or derived from what has been made there, its buffer
is live, and it has elements, as many as 64 bits can count. -/
structure Offers (s : Session) (k : Nat) (c : Context) (v : Tensor) : Prop where
  derives : s.Derives k v
  live : c.isLive v = true
  pos : 0 < v.shape.toList.prod
  fit : v.shape.toList.prod < Word.limit

/-- In a strict context whose allocator gives aligned answers, a kernel succeeds exactly if its operands are as it asks
for. Otherwise it reports a precondition that failed, and no other error, and nothing stops it. -/
theorem decides_of_offers (hc : s.context? k = some c) (hs : c.strict = true)
    (hp : (s.resources.allocator c.allocator).provider.Aligned) :
    (∀ call : KernelCall Tensor, (∀ v ∈ call.toList, s.Offers k c v) → (c.launch call).1.Decides call.Accepts) ∧
      ∀ op x, s.Offers k c x →
        (c.reduceAll op x).Decides (x.isContiguous = .ok true ∧ x.type.float?.isSome = true) := by
  have husable : ∀ {v}, s.Offers k c v → c.Usable v := fun h => h.derives.usable hc hp h.live h.pos h.fit
  exact ⟨fun call h => c.launch_decides hs fun v hv => husable (h v hv),
    fun op x h => c.reduceAll_decides op hs (husable h)⟩

/-! ### A row of a matrix -/

def makeMatrix : Command := .ofList "a" .f32 [0x3f800000#32, 0xc0000000#32, 0x40400000#32, 0xc0800000#32] [2, 2] .cpu

def makeOutput : Command := .alloc "o" [2] .f32 .cpu

def secondRow : List ViewOp := [.slice 0 1 2, .squeeze]

theorem secondRow_decides : ∃ s c v o,
    initial.performAll [.build {}, .command 0 makeMatrix, .command 0 makeOutput] = some s ∧
      s.context? 0 = some c ∧ c.strict = true ∧ (s.resources.allocator c.allocator).provider.Aligned ∧
      s.Offers 0 c v ∧ s.Offers 0 c o ∧
      (c.launch (.unary .relu v o)).1.Decides (KernelCall.unary .relu v o).Accepts ∧
      (KernelCall.unary .relu v o).Accepts ∧ (c.launch (.unary .relu v o)).1 = .ok () := by
  obtain ⟨s₀, s₁, s, c, a, v, o, hall, hs₀, hmatrix, houtput, hc, hs, hp, hv, hvlive, holive, hvshape, hoshape, hok⟩ :
      ∃ s₀ s₁ s c a v o, initial.performAll [.build {}, .command 0 makeMatrix, .command 0 makeOutput] = some s ∧
        initial.performAll [.build {}] = some s₀ ∧
        s₀.step 0 makeMatrix = some (.ok (.tensor a), s₁) ∧ s₁.step 0 makeOutput = some (.ok (.tensor o), s) ∧
        s.context? 0 = some c ∧ c.strict = true ∧ (s.resources.allocator c.allocator).provider = .system ∧
        ViewOp.applyAll secondRow a = .ok v ∧ c.isLive v = true ∧ c.isLive o = true ∧ v.shape.toList = [2] ∧
        o.shape.toList = [2] ∧ (c.launch (.unary .relu v o)).1 = .ok () :=
    ⟨_, _, _, _, _, _, _, rfl, rfl, rfl, rfl, rfl, rfl, rfl, rfl, rfl, rfl, rfl, rfl, rfl⟩
  have hs₁ : s₀.perform (.command 0 makeMatrix) = some s₁ := congrArg (Option.map Prod.snd) hmatrix
  have hs₂ : s₁.performAll [.command 0 makeOutput] = some s := by
    simp only [performAll, List.foldlM_cons, List.foldlM_nil, perform, houtput, Option.map_some]
    rfl
  obtain ⟨home, hrun⟩ := Run.initial.performAll hs₀
  have hvoffers : s.Offers 0 c v :=
    ⟨⟨hrun, rfl, hmatrix, hs₂, by decide, hv⟩, hvlive, by rw [hvshape]; decide, by rw [hvshape]; decide⟩
  have hooffers : s.Offers 0 c o :=
    ⟨⟨hrun.perform hs₁, rfl, houtput, show s.performAll [] = some s from rfl, List.forall_mem_nil _, rfl⟩, holive,
      by rw [hoshape]; decide, by rw [hoshape]; decide⟩
  have hdecides := (decides_of_offers hc hs (hp ▸ Provider.aligned_system)).1 (.unary .relu v o) (by
    simp [KernelCall.toList, hvoffers, hooffers])
  exact ⟨s, c, v, o, hall, hc, hs, hp ▸ Provider.aligned_system, hvoffers, hooffers, hdecides, hdecides.of_eq_ok hok,
    hok⟩

end Session

end StridedTensor
