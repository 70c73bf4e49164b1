import StridedTensor.Proofs.Lenient
import StridedTensor.Proofs.Operand

/-!
# Element-wise kernels

Every element of the output is computed from the elements that the operands had before the call, whatever bytes
operands and output share (`launch_elementwise`).
-/

namespace StridedTensor

namespace KernelCall

def isElementwise {τ : Type} : KernelCall τ → Bool
  | unary _ _ _ | binary _ _ _ _ | scalarOp _ _ _ _ => true
  | _ => false

/-- What an element-wise call is to store as element `k`, from the elements that its operands have in `c`. -/
def value? (call : KernelCall Tensor) (c : Context) (t : FloatType) (k : Nat) : Option (Binary t.format) :=
  match call with
  | unary op x _ => do
    let a ← c.element? t x k
    return t.narrow (op.apply (t.widen a))
  | binary op x y _ => do
    let a ← c.element? t x k
    let b ← c.element? t y (if y.numel = .ok 1 then 0 else k)
    return t.narrow (op.apply (t.widen a) (t.widen b))
  | scalarOp op x rhs _ => do
    let a ← c.element? t x k
    return t.narrow (op.apply (t.widen a) (t.ofDouble rhs.toDouble))
  | _ => none

end KernelCall

namespace Kernel

variable {t : FloatType} {x y output : Tensor}

theorem checkUnary_eq_ok (h : checkUnary x output = .ok t) :
    x.isContiguous = .ok true ∧ output.isContiguous = .ok true ∧ x.type = t.element ∧ output.type = t.element ∧
      ∃ n, x.numel = .ok n ∧ output.numel = .ok n := by
  unfold checkUnary at h
  simp only [Result.bind_eq_ok] at h
  obtain ⟨_, hx, _, ho, t', ht, _, hty, n, hn, m, hm, h⟩ := h
  by_cases hne : n = m
  · subst hne
    rw [if_neg (by simp), Result.pure_eq_ok] at h
    subst h
    have htx := checkFloat_eq_ok.1 ht
    exact ⟨(checkOperand_eq_ok.1 hx).2, (checkOperand_eq_ok.1 ho).2, htx,
      (checkType_eq_ok.1 hty).symm.trans htx, n, hn, hm⟩
  · simp [hne] at h

theorem checkSecond_eq_ok (h : checkSecond x y = .ok ()) :
    y.isContiguous = .ok true ∧ x.type = y.type ∧
      ∃ n m, y.numel = .ok n ∧ x.numel = .ok m ∧ (n = m ∨ n = 1) := by
  unfold checkSecond at h
  simp only [Result.bind_eq_ok] at h
  obtain ⟨_, hy, _, hty, n, hn, m, hm, h⟩ := h
  refine ⟨(checkOperand_eq_ok.1 hy).2, checkType_eq_ok.1 hty, n, m, hn, hm, ?_⟩
  by_cases hc : n ≠ m ∧ n ≠ 1
  · simp [hc] at h
  · omega

theorem unlessEmpty_eq_ok {κ : Type} {k : κ} {found : Option κ} :
    unlessEmpty output k = .ok found ↔ ∃ n, output.numel = .ok n ∧ found = if n = 0 then none else some k := by
  unfold unlessEmpty
  simp only [Result.bind_eq_ok, Result.pure_eq_ok]
  simp only [eq_comm]

/-- A kernel that is to run has passed its checks and has elements to write. -/
theorem unlessEmpty_eq_some {κ : Type} {check : Result κ} {k : κ}
    (h : (do unlessEmpty output (← check)) = .ok (some k)) : check = .ok k ∧ ∃ n, output.numel = .ok n ∧ 0 < n := by
  obtain ⟨k', hk, hempty⟩ := Result.bind_eq_ok.1 h
  obtain ⟨n, hn, hsome⟩ := unlessEmpty_eq_ok.1 hempty
  by_cases h0 : n = 0
  · simp [h0] at hsome
  · obtain rfl : k = k' := by simpa [h0] using hsome
    exact ⟨hk, n, hn, by omega⟩

end Kernel

namespace Context

open Kernel

variable {c c' : Context} {t : FloatType} {x y output : Tensor}

theorem runKernel_unlessEmpty {κ : Type} (hs : c.strict = true) {check : Result κ}
    {kernel : κ → Result Unit × Context}
    (h : c.runKernel (do unlessEmpty output (← check)) kernel = (.ok (), c')) :
    ∃ k n, check = .ok k ∧ output.numel = .ok n ∧ (n = 0 ∨ 0 < n ∧ kernel k = (.ok (), c')) := by
  rcases (runKernel_eq_ok hs).1 h with ⟨hplan, -⟩ | ⟨k, hplan, hrun⟩
  · obtain ⟨k, hk, hempty⟩ := Result.bind_eq_ok.1 hplan
    obtain ⟨n, hn, hnone⟩ := unlessEmpty_eq_ok.1 hempty
    refine ⟨k, n, hk, hn, .inl ?_⟩
    by_contra h0
    simp [h0] at hnone
  · obtain ⟨hk, n, hn, h0⟩ := unlessEmpty_eq_some hplan
    exact ⟨k, n, hk, hn, .inr ⟨h0, hrun⟩⟩

/-- `run` updates each of the `n` elements of the output, and the value of element `k` depends on nothing that the
loop writes elsewhere. -/
def Updates (c : Context) (t : FloatType) (output : Tensor) (n : Nat) (value : Nat → Option (Binary t.format))
    (run : Array (Binary t.format) → Result (Array (Binary t.format))) : Prop :=
  ∃ f, run (c.floats t output) = updateEach f (c.floats t output) ∧
    ∀ k < n, ∃ v, value k = some v ∧
      ∀ ys : Array (Binary t.format), ys[k]? = (c.floats t output)[k]? → f ys k = .ok v

/-- Such a loop runs to its end, and leaves the values. -/
theorem Updates.run_eq {value : Nat → Option (Binary t.format)} {n : Nat}
    {run : Array (Binary t.format) → Result (Array (Binary t.format))} (h : c.Updates t output n value run)
    (hn : output.numel = .ok n) :
    ∃ zs, run (c.floats t output) = .ok zs ∧ zs.size = output.shape.toList.prod ∧ ∀ k < n, zs[k]? = value k := by
  obtain ⟨f, hf, hvalue⟩ := h
  have hsize : (c.floats t output).size = n := by rw [size_floats, ← Tensor.numel_eq hn]
  obtain ⟨zs, hzs, hzsize, hmem⟩ := updateEach_eq value (c.floats t output) (by
    intro k hk
    obtain ⟨v, hv, hfk⟩ := hvalue k (by omega)
    exact ⟨v, hv, fun ys _ hy => hfk ys hy⟩)
  exact ⟨zs, by rw [hf, hzs], by rw [hzsize, size_floats], fun k hk => hmem k (by omega)⟩

/-- A kernel that updates each element from operands that the loop does not disturb. -/
private theorem writeElements_updateEach
    {kernel : Arena → Buffer → Result (Array (Binary t.format) → Result (Array (Binary t.format)))}
    {value : Nat → Option (Binary t.format)} {n : Nat} (hc : output.isContiguous = .ok true)
    (ht : output.type = t.element) (hn : output.numel = .ok n) (h : c.writeElements t output kernel = (.ok (), c'))
    (hk : ∀ id b run, c.Ready t output → output.buffer = some id → c.arena.get? id = some b →
      kernel (c.arena.erase id) b = .ok run → c.Updates t output n value run) :
    ∀ k < n, ∃ v, value k = some v ∧ c'.element? t output k = some v := by
  obtain ⟨id, b, run, zs, ho, hid, hb, hrun, hzs, hleft⟩ := writeElements_eq_ok hc ht h
  have hupdates := hk id b run ho hid hb hrun
  obtain ⟨ws, hws, hwsize, hmem⟩ := hupdates.run_eq hn
  obtain rfl : zs = ws := by
    rw [hws] at hzs
    simpa using hzs.symm
  obtain ⟨ho', hfloats⟩ := hleft hwsize
  obtain ⟨f, -, hvalue⟩ := hupdates
  intro k hk
  obtain ⟨v, hv, -⟩ := hvalue k hk
  refine ⟨v, hv, ?_⟩
  rw [element?_eq ho', hfloats, hmem k hk, hv]

private theorem exists_element? (h : c.Ready t x) {n k : Nat} (hn : x.numel = .ok n) (hk : k < n) :
    ∃ a, c.element? t x k = some a ∧ (c.floats t x)[k]? = some a := by
  have hlt : k < (c.floats t x).size := by rwa [size_floats, ← Tensor.numel_eq hn]
  refine ⟨(c.floats t x)[k], ?_, Array.getElem?_eq_getElem hlt⟩
  rw [element?_eq h, Array.getElem?_eq_getElem hlt]

/-- What a kernel with one operand does with its buffers. -/
def mapKernel (t : FloatType) (x output : Tensor) (g : Binary t.accumulator → Binary t.accumulator) (arena : Arena)
    (b : Buffer) : Result (Array (Binary t.format) → Result (Array (Binary t.format))) := do
  let x ← resolve t arena b x output true
  return updateEach fun ys i => do return t.narrow (g (t.widen (← x.get ys i)))

theorem mapKernel_updates {g : Binary t.accumulator → Binary t.accumulator} {n : Nat} {id : BufferId} {b : Buffer}
    {run : Array (Binary t.format) → Result (Array (Binary t.format))} (hx : c.Ready t x) (ho : c.Ready t output)
    (hxn : x.numel = .ok n) (hid : output.buffer = some id) (hb : c.arena.get? id = some b)
    (hrun : mapKernel t x output g (c.arena.erase id) b = .ok run) :
    c.Updates t output n (fun k => do let a ← c.element? t x k; return t.narrow (g (t.widen a))) run := by
  obtain ⟨operand, hoperand, hrun⟩ := Result.bind_eq_ok.1 hrun
  obtain rfl := Result.pure_eq_ok.1 hrun
  obtain ⟨hreads, -⟩ := resolve_reads hx ho hid hb hoperand
  refine ⟨_, rfl, fun k hk => ?_⟩
  obtain ⟨a, ha, hfa⟩ := exists_element? hx hxn hk
  refine ⟨t.narrow (g (t.widen a)), by simp [ha], fun ys hy => ?_⟩
  rw [hreads.get hfa hy]
  rfl

theorem runKernel_map {g : (t : FloatType) → Binary t.accumulator → Binary t.accumulator} (hs : c.strict = true)
    (h : c.runKernel (do unlessEmpty output (← checkUnary x output)) (fun t =>
        match c.validate x with
        | .error e => (.error e, c)
        | .ok _ =>
          c.writeElements t output fun arena b => do
            let x ← resolve t arena b x output true
            return updateEach fun ys i => do return t.narrow (g t (t.widen (← x.get ys i)))) = (.ok (), c')) :
    ∃ t n, output.type = FloatType.element t ∧ output.numel = .ok n ∧
      ∀ k < n, ∃ v, (do let a ← c.element? t x k; return t.narrow (g t (t.widen a))) = some v ∧
        c'.element? t output k = some v := by
  obtain ⟨t, n, hcheck, hn, hrun⟩ := runKernel_unlessEmpty hs h
  obtain ⟨hxc, hoc, hxt, hot, m, hxn, hm⟩ := checkUnary_eq_ok hcheck
  obtain rfl : m = n := by simpa [hn] using hm.symm
  refine ⟨t, m, hot, hn, ?_⟩
  rcases hrun with rfl | ⟨-, hrun⟩
  · simp
  · cases hv : c.validate x with
    | error e => simp [hv] at hrun
    | ok _ =>
      simp only [hv] at hrun
      exact writeElements_updateEach hoc hot hn hrun fun id b run ho hid hb hk =>
        mapKernel_updates ⟨hv, hxc, hxt⟩ ho hxn hid hb hk

/-- What a kernel with two operands does with its buffers; the second one has `count` elements. -/
def zipKernel (t : FloatType) (op : BinaryOp) (x y output : Tensor) (count : Nat) (arena : Arena) (b : Buffer) :
    Result (Array (Binary t.format) → Result (Array (Binary t.format))) := do
  let x ← resolve t arena b x output true
  let y ← resolve t arena b y output (count != 1)
  return fun ys => do
    let single ← if count = 1 then some <$> t.widen <$> y.get ys 0 else pure none
    updateEach (fun ys i => do
      let lhs := t.widen (← x.get ys i)
      let rhs ← match single with
        | some rhs => pure rhs
        | none => t.widen <$> y.get ys i
      return t.narrow (op.apply lhs rhs)) ys

/-- The second operand goes with every element of the first, or with the one at its position. -/
theorem zipKernel_updates {op : BinaryOp} {n count : Nat} {id : BufferId} {b : Buffer}
    {run : Array (Binary t.format) → Result (Array (Binary t.format))} (hx : c.Ready t x) (hy : c.Ready t y)
    (ho : c.Ready t output) (hxn : x.numel = .ok n) (hyn : y.numel = .ok count) (hcount : count = n ∨ count = 1)
    (hid : output.buffer = some id) (hb : c.arena.get? id = some b)
    (hrun : zipKernel t op x y output count (c.arena.erase id) b = .ok run) :
    c.Updates t output n ((KernelCall.binary op x y output).value? c t) run := by
  obtain ⟨left, hleft, hrun⟩ := Result.bind_eq_ok.1 hrun
  obtain ⟨right, hright, hrun⟩ := Result.bind_eq_ok.1 hrun
  obtain rfl := Result.pure_eq_ok.1 hrun
  obtain ⟨hlreads, -⟩ := resolve_reads hx ho hid hb hleft
  obtain ⟨hrreads, hstaged⟩ := resolve_reads hy ho hid hb hright
  by_cases h1 : count = 1
  · -- the single element is read before the loop
    subst h1
    obtain ⟨e, he, hfe⟩ := exists_element? hy hyn Nat.one_pos
    refine ⟨fun ys i => do return t.narrow (op.apply (t.widen (← left.get ys i)) (t.widen e)), ?_, fun k hk => ?_⟩
    · rw [hstaged rfl]
      simp only [if_true, Operand.get, hfe]
      rfl
    · obtain ⟨a, ha, hfa⟩ := exists_element? hx hxn hk
      refine ⟨t.narrow (op.apply (t.widen a) (t.widen e)), ?_, fun ys hys => ?_⟩
      · simp [KernelCall.value?, ha, hyn, he]
      · simp only [hlreads.get hfa hys]
        rfl
  · obtain rfl : count = n := by omega
    refine ⟨fun ys i => do
      let a ← left.get ys i
      let rhs ← t.widen <$> right.get ys i
      return t.narrow (op.apply (t.widen a) rhs), ?_, fun k hk => ?_⟩
    · simp only [if_neg h1]
      rfl
    · obtain ⟨a, ha, hfa⟩ := exists_element? hx hxn hk
      obtain ⟨e, he, hfe⟩ := exists_element? hy hyn hk
      refine ⟨t.narrow (op.apply (t.widen a) (t.widen e)), ?_, fun ys hys => ?_⟩
      · simp [KernelCall.value?, ha, hyn, h1, he]
      · simp only [hlreads.get hfa hys, hrreads.get hfe hys]
        rfl

/-- Operands that can be resolved are combined. -/
theorem exists_zipKernel (op : BinaryOp) {n count : Nat} {id : BufferId} {b : Buffer}
    {left right : Operand (Binary t.format)} (hx : c.Ready t x) (hy : c.Ready t y) (ho : c.Ready t output)
    (hxn : x.numel = .ok n) (hn : output.numel = .ok n) (hyn : y.numel = .ok count) (hcount : count = n ∨ count = 1)
    (hid : output.buffer = some id) (hb : c.arena.get? id = some b)
    (hleft : resolve t (c.arena.erase id) b x output true = .ok left)
    (hright : resolve t (c.arena.erase id) b y output (count != 1) = .ok right) :
    ∃ run zs, zipKernel t op x y output count (c.arena.erase id) b = .ok run ∧ run (c.floats t output) = .ok zs := by
  obtain ⟨run, hrun⟩ : ∃ run, zipKernel t op x y output count (c.arena.erase id) b = .ok run := by
    unfold zipKernel
    rw [hleft, hright]
    exact ⟨_, rfl⟩
  obtain ⟨zs, hzs, -⟩ := (zipKernel_updates hx hy ho hxn hyn hcount hid hb hrun).run_eq hn
  exact ⟨run, zs, hrun, hzs⟩

theorem binary_eq_ok {op : BinaryOp} (hs : c.strict = true) (h : c.binary op x y output = (.ok (), c')) :
    ∃ t n, output.type = FloatType.element t ∧ output.numel = .ok n ∧
      ∀ k < n, ∃ v, (KernelCall.binary op x y output).value? c t k = some v ∧ c'.element? t output k = some v := by
  have hplan : (do let t ← checkUnary x output; checkSecond x y; unlessEmpty output t : Result (Option FloatType)) =
      (do let t ← checkUnary x output; checkSecond x y; pure t : Result FloatType) >>= unlessEmpty output := by
    simp only [bind_assoc, pure_bind]
  unfold binary at h
  rw [hplan] at h
  obtain ⟨t, n, hcheck, hn, hrun⟩ := runKernel_unlessEmpty hs h
  simp only [Result.bind_eq_ok, Result.pure_eq_ok] at hcheck
  obtain ⟨t', hfirst, _, hsecond, rfl⟩ := hcheck
  obtain ⟨hxc, hoc, hxt, hot, m, hxn, hm⟩ := checkUnary_eq_ok hfirst
  obtain ⟨hyc, hxy, count, m', hyn, hxn', hcount⟩ := checkSecond_eq_ok hsecond
  obtain rfl : m = n := by simpa [hn] using hm.symm
  obtain rfl : m' = m := by simpa [hxn] using hxn'.symm
  refine ⟨t', m', hot, hn, ?_⟩
  rcases hrun with rfl | ⟨-, hrun⟩
  · simp
  · cases hv : (do c.validate x; c.validate y; y.numel : Result Nat) with
    | error e => simp [hv] at hrun
    | ok count' =>
      simp only [hv] at hrun
      simp only [Result.bind_eq_ok] at hv
      obtain ⟨_, hvx, _, hvy, hyn'⟩ := hv
      obtain rfl : count' = count := by simpa [hyn] using hyn'.symm
      exact writeElements_updateEach hoc hot hn hrun fun id b run ho hid hb hk =>
        zipKernel_updates ⟨hvx, hxc, hxt⟩ ⟨hvy, hyc, hxy.symm.trans hxt⟩ ho hxn hyn hcount hid hb hk

/-- After an element-wise call that succeeds and is not skipped, every element of the output has the value that the
elements before the call determine, in whatever way the operands and the output overlap. -/
theorem launch_elementwise {call : KernelCall Tensor} (hcall : call.isElementwise = true)
    (h : c.launch call = (.ok (), c')) (hskip : ¬ c.Skips call) :
    ∃ t n, call.output.type = FloatType.element t ∧ call.output.numel = .ok n ∧
      ∀ k < n, ∃ v, call.value? c t k = some v ∧ c'.element? t call.output k = some v := by
  -- what tensors hold does not depend on the mode
  have hstrict := launch_strictly h hskip
  cases call with
  | unary op x o =>
    have hmap := runKernel_map (g := fun t => op.apply) rfl hstrict
    exact hmap
  | binary op x y o =>
    have hzip := binary_eq_ok rfl hstrict
    exact hzip
  | scalarOp op x rhs o =>
    have hmap := runKernel_map (g := fun t a => op.apply a (t.ofDouble rhs.toDouble)) rfl hstrict
    exact hmap
  | reduceLast op x o => simp [KernelCall.isElementwise] at hcall
  | argmax x o => simp [KernelCall.isElementwise] at hcall
  | gemm alpha a b beta o => simp [KernelCall.isElementwise] at hcall
  | matmul a b o => simp [KernelCall.isElementwise] at hcall

/-! ### An operand that overlaps the output -/

/-- A context with one buffer, which holds the floats one, two, three and four. -/
def oneToFour : Context where
  allocator := 0
  arena := ⟨[(7, ⟨4096, (Kernel.store .f32 [0x3f800000, 0x40000000, 0x40400000, 0x40800000]).toArray, 64, .cpu,
    .owned 0⟩)], by simp⟩
  strict := true
  alignment := 64

/-- The floats of that buffer from the given one on, in row-major layout. -/
def floatsFrom (start : Nat) (shape : List Nat) (strides : List Nat) : Tensor where
  buffer := some 7
  offset := 4 * start
  type := .f32
  device := .cpu
  layout := Layout.ofEntries (Dims.build (min shape.length maxRank) (Nat.min_le_right _ _) fun i => shape.getD i 0)
    strides
  ownership := false

/-- Adds the second float to the first three, and writes the sums over the last three. -/
def shiftedSum : KernelCall Tensor := .binary .add (floatsFrom 0 [3] [4]) (floatsFrom 1 [1] [4]) (floatsFrom 1 [3] [4])

example : (oneToFour.launch shiftedSum).2.element? .f32 (floatsFrom 0 [4] [4]) 3 = some (Binary.ofInt .single 5) := by
  rfl

theorem launch_shiftedSum :
    ∃ t n, shiftedSum.output.type = FloatType.element t ∧ shiftedSum.output.numel = .ok n ∧
      ∀ k < n, ∃ v, shiftedSum.value? oneToFour t k = some v ∧
        (oneToFour.launch shiftedSum).2.element? t shiftedSum.output k = some v :=
  launch_elementwise rfl (Prod.ext rfl rfl) fun h => Bool.noConfusion h.1

end Context

end StridedTensor
