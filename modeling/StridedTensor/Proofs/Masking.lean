import StridedTensor.Kernel.Call
import StridedTensor.Proofs.Access
import StridedTensor.Proofs.Entries

/-!
# Other bytes in the memory of other devices

A `Mask` says which other bytes to put into the memory that callers have lent. In buffers on other devices than the
host nobody notices: an operation on a context behind the mask does what it does without the mask. There is one such
equation for each operation. They hold since a tensor passes the check only if its buffer is on the host
(`Context.check_mask`), and a kernel that meets an operand elsewhere refuses it (`Kernel.borrow_mask`).
-/

namespace StridedTensor

/-- Other bytes for each piece of lent memory, as many as there were. -/
structure Mask where
  memory : Nat → Bytes → Bytes
  size_memory : ∀ m contents, (memory m contents).size = contents.size

/-! ### Buffers -/

namespace Buffer

variable (μ : Mask)

/-- The buffer with other bytes, if it is lent memory of another device than the host. -/
def mask (b : Buffer) : Buffer :=
  { b with contents := if b.device.isCpu then b.contents else match b.origin with
      | .owned _ => b.contents
      | .foreign m => μ.memory m b.contents }

variable {μ} {b : Buffer}

@[simp] theorem device_mask : (b.mask μ).device = b.device := rfl

@[simp] theorem origin_mask : (b.mask μ).origin = b.origin := rfl

theorem mask_of_isCpu (h : b.device.isCpu = true) : b.mask μ = b := by
  unfold mask
  rw [if_pos h]

theorem mask_eq_self (h : ∀ m, b.origin = .foreign m → μ.memory m b.contents = b.contents) : b.mask μ = b := by
  have hcontents : (b.mask μ).contents = b.contents := by
    unfold mask
    split
    · rfl
    · split
      · rfl
      · exact h _ ‹_›
  exact congrArg (fun contents => { b with contents := contents }) hcontents

theorem mask_of_owned {id : AllocatorId} (h : b.origin = .owned id) : b.mask μ = b := by
  apply mask_eq_self
  intro m hm
  rw [h] at hm
  cases hm

theorem contents_mask_of_foreign {m : Nat} (hcpu : b.device.isCpu = false) (h : b.origin = .foreign m) :
    (b.mask μ).contents = μ.memory m b.contents := by
  simp only [mask, hcpu, h, Bool.false_eq_true, if_false]

@[simp] theorem size_mask : (b.mask μ).size = b.size := by
  unfold mask size
  split
  · rfl
  · split
    · rfl
    · exact μ.size_memory _ _

private theorem hostBytes_mask (b : Buffer) : (b.mask μ).hostBytes = b.hostBytes := by
  cases hcpu : b.device.isCpu with
  | true => rw [mask_of_isCpu hcpu]
  | false => simp only [hostBytes, device_mask, hcpu, Bool.false_eq_true, if_false]

end Buffer

namespace Kernel

variable {μ : Mask}

/-- Bytes that are not on the host are not borrowed. -/
theorem borrow_mask (t : FloatType) (b : Buffer) (span : Span) : borrow t (b.mask μ) span = borrow t b span := by
  cases hcpu : b.device.isCpu with
  | true => rw [Buffer.mask_of_isCpu hcpu]
  | false =>
    have hdenied : b.hostBytes = Result.reject (.device b.device) := by
      simp only [Buffer.hostBytes, hcpu, Bool.false_eq_true, if_false]
    unfold borrow
    rw [Buffer.hostBytes_mask, hdenied]
    rfl

private theorem resolve_mask (t : FloatType) (arena : Arena) (b : Buffer) (input output : Tensor) (inPlace : Bool) :
    resolve t (Table.map (Buffer.mask μ) arena) b input output inPlace = resolve t arena b input output inPlace := by
  unfold resolve
  refine bind_congr fun span => ?_
  cases input.buffer with
  | none => rfl
  | some id =>
    simp only [Table.get?_map]
    cases arena.get? id with
    | none => rfl
    | some other => simp only [Option.map_some, borrow_mask]

end Kernel

/-! ### Contexts -/

namespace Context

variable {μ : Mask}

variable (μ) in
def mask (c : Context) : Context := { c with arena := Table.map (Buffer.mask μ) c.arena }

theorem get?_mask (c : Context) (id : BufferId) : (c.mask μ).arena.get? id = (c.arena.get? id).map (Buffer.mask μ) :=
  Table.get?_map _ _ _

theorem contains_mask (c : Context) (id : BufferId) : (c.mask μ).arena.contains id = c.arena.contains id := by
  unfold Table.contains
  rw [get?_mask, Option.isSome_map]

theorem check_mask (c : Context) (t : Tensor) : (c.mask μ).check t = c.check t := by
  unfold check
  cases hv : t.validate with
  | error e => rfl
  | ok _ =>
    have hcpu : t.device.isCpu = true := (Tensor.validate_eq_ok.1 hv).1
    simp only [Result.ok_bind]
    cases t.buffer with
    | none => rfl
    | some id =>
      simp only [get?_mask]
      cases c.arena.get? id with
      | none => rfl
      | some b =>
        simp only [Option.map_some, Buffer.device_mask, Buffer.size_mask]
        by_cases hdevice : b.device = t.device
        · have hsame : b.mask μ = b := Buffer.mask_of_isCpu (hdevice ▸ hcpu)
          rw [hsame]
        · rw [if_pos hdevice, if_pos hdevice]

theorem validate_mask (c : Context) (t : Tensor) : (c.mask μ).validate t = c.validate t :=
  congrArg discard (check_mask c t)

private theorem host_mask (c : Context) (t : Tensor) : (c.mask μ).host t = c.host t := by
  unfold host
  rw [check_mask]

/-- The buffer behind a tensor that passes the check is on the host. -/
private theorem isCpu_of_check {c : Context} {t : Tensor} {found : Option Buffer} (h : c.check t = .ok found)
    {id : BufferId}
    {b : Buffer} (hid : t.buffer = some id) (hb : c.arena.get? id = some b) : b.device.isCpu = true := by
  obtain ⟨hv, hfound⟩ := check_eq_ok.1 h
  rw [hid] at hfound
  obtain ⟨b', -, hb', hdevice, -⟩ := hfound
  obtain rfl : b' = b := Option.some.inj (hb'.symm.trans hb)
  rw [hdevice]
  exact (Tensor.validate_eq_ok.1 hv).1

private theorem setContents_mask {c : Context} {t : Tensor} {found : Option Buffer} (h : c.check t = .ok found)
    (contents : Bytes) : (c.mask μ).setContents t contents = (c.setContents t contents).mask μ := by
  unfold setContents
  cases hid : t.buffer with
  | none => rfl
  | some id =>
    simp only [get?_mask]
    cases hb : c.arena.get? id with
    | none => rfl
    | some b =>
      have hcpu : b.device.isCpu = true := isCpu_of_check h hid hb
      have hnew : Buffer.mask μ { b with contents } = { b with contents } := Buffer.mask_of_isCpu hcpu
      have hreplace := Table.replace_map (Buffer.mask μ) c.arena id { b with contents }
      rw [hnew] at hreplace
      simp only [Option.map_some, Buffer.mask_of_isCpu hcpu, mask, hreplace]

theorem updateHost_mask (c : Context) (t : Tensor) (f : Bytes → Result Bytes) :
    (c.mask μ).updateHost t f = Prod.map id (mask μ) (c.updateHost t f) := by
  unfold updateHost
  rw [host_mask]
  cases h : c.host t >>= f with
  | error e => rfl
  | ok contents =>
    obtain ⟨old, hold, -⟩ := Result.bind_eq_ok.1 h
    obtain ⟨found, hcheck, -⟩ := Result.bind_eq_ok.1 hold
    exact congrArg (Prod.mk _) (setContents_mask hcheck contents)

private theorem withOutput_mask (c : Context) (output : Tensor) {f : Arena → Buffer → Result Bytes}
    (hf : ∀ arena b, f (Table.map (Buffer.mask μ) arena) b = f arena b) :
    (c.mask μ).withOutput output f = Prod.map id (mask μ) (c.withOutput output f) := by
  unfold withOutput Arena.withOutput
  rw [check_mask]
  cases hcheck : c.check output with
  | error e => rfl
  | ok found =>
    cases hid : output.buffer with
    | none => rfl
    | some id =>
      simp only [get?_mask]
      cases hb : c.arena.get? id with
      | none => rfl
      | some b =>
        -- the buffer that is written is on the host, and so it stays as it is
        have hcpu : b.device.isCpu = true := isCpu_of_check hcheck hid hb
        have herase : (c.mask μ).arena.erase id = Table.map (Buffer.mask μ) (c.arena.erase id) :=
          Table.erase_map _ _ _
        have hreplace : ∀ b' : Buffer, b'.device = b.device →
            (c.mask μ).arena.replace id b' = Table.map (Buffer.mask μ) (c.arena.replace id b') := by
          intro b' hdevice
          have hsame : b'.mask μ = b' := Buffer.mask_of_isCpu (hdevice ▸ hcpu)
          rw [← Table.replace_map, hsame]
          rfl
        simp only [Option.map_some, Buffer.mask_of_isCpu hcpu, herase, hf]
        cases b.hostBytes >>= fun _ => f (c.arena.erase id) b with
        | ok contents => simp only [hreplace { b with contents } rfl]; rfl
        | error e => simp only [hreplace b rfl]; rfl

/-! ### Reading and writing -/

theorem get_mask (c : Context) (t : Tensor) (index : List Nat) : (c.mask μ).get t index = c.get t index := by
  unfold get
  rw [host_mask]

theorem toList_mask (c : Context) (t : Tensor) (type : ElementType) : (c.mask μ).toList t type = c.toList t type := by
  unfold toList
  rw [host_mask]

theorem toScalar_mask (c : Context) (t : Tensor) : (c.mask μ).toScalar t = c.toScalar t := by
  unfold toScalar
  rw [get_mask]

theorem elements_mask (c : Context) (t : Tensor) : (c.mask μ).elements t = c.elements t := by
  unfold elements
  rw [validate_mask, funext (get_mask c t)]

theorem set_mask (c : Context) (t : Tensor) (index : List Nat) (value : Scalar) :
    (c.mask μ).set t index value = Prod.map id (mask μ) (c.set t index value) := by
  unfold set
  split
  · rfl
  · exact updateHost_mask c t _

theorem fill_mask (c : Context) (t : Tensor) (value : Scalar) :
    (c.mask μ).fill t value = Prod.map id (mask μ) (c.fill t value) := updateHost_mask c t _

theorem copy_mask (c : Context) (source target : Tensor) :
    (c.mask μ).copy source target = Prod.map id (mask μ) (c.copy source target) := by
  have hgather : (c.mask μ).gather source = c.gather source := by
    unfold gather
    rw [host_mask]
  unfold copy
  rw [hgather]
  split
  · rfl
  · exact updateHost_mask c target _

/-! ### Kernels -/

private theorem writeElements_mask (c : Context) (t : FloatType) (output : Tensor)
    {kernel : Arena → Buffer → Result (Array (Binary t.format) → Result (Array (Binary t.format)))}
    (hk : ∀ arena b, kernel (Table.map (Buffer.mask μ) arena) b = kernel arena b) :
    (c.mask μ).writeElements t output kernel = Prod.map id (mask μ) (c.writeElements t output kernel) := by
  unfold writeElements
  refine withOutput_mask c output fun arena b => ?_
  rw [hk]

private theorem writeRows_mask (c : Context) (t : FloatType) (type : ElementType) (x output : Tensor) (inner : Nat)
    (f : List (Binary t.format) → Nat) :
    (c.mask μ).writeRows t type x output inner f = Prod.map id (mask μ) (c.writeRows t type x output inner f) := by
  unfold writeRows
  rw [validate_mask]
  cases c.validate x with
  | error e => rfl
  | ok _ =>
    refine withOutput_mask c output fun arena b => ?_
    rw [Kernel.resolve_mask]

private theorem runKernel_mask (c : Context) {κ : Type} (plan : Result (Option κ))
    {kernel kernel' : κ → Result Unit × Context} (hk : ∀ k, kernel' k = Prod.map id (mask μ) (kernel k)) :
    (c.mask μ).runKernel plan kernel' = Prod.map id (mask μ) (c.runKernel plan kernel) := by
  unfold runKernel
  cases plan with
  | error e => rfl
  | ok found =>
    cases found with
    | none => rfl
    | some k =>
      simp only [hk]
      rfl

private theorem gemm_mask (c : Context) (alpha : Binary .double) (a b : Tensor) (beta : Binary .double) (o : Tensor) :
    (c.mask μ).gemm alpha a b beta o = Prod.map id (mask μ) (c.gemm alpha a b beta o) := by
  apply runKernel_mask
  intro k
  simp only [validate_mask]
  cases (do c.validate a; c.validate b : Result Unit) with
  | error e => rfl
  | ok _ => exact writeElements_mask c _ o fun arena b => by simp only [Kernel.resolve_mask]

theorem launch_mask (c : Context) (call : KernelCall Tensor) :
    (c.mask μ).launch call = Prod.map id (mask μ) (c.launch call) := by
  cases call with
  | unary op x o =>
    apply runKernel_mask
    intro t
    rw [validate_mask]
    cases c.validate x with
    | error e => rfl
    | ok _ => exact writeElements_mask c t o fun arena b => by rw [Kernel.resolve_mask]
  | binary op x y o =>
    apply runKernel_mask
    intro t
    simp only [validate_mask]
    cases (do c.validate x; c.validate y; y.numel : Result Nat) with
    | error e => rfl
    | ok count => exact writeElements_mask c t o fun arena b => by simp only [Kernel.resolve_mask]
  | scalarOp op x rhs o =>
    apply runKernel_mask
    intro t
    rw [validate_mask]
    cases c.validate x with
    | error e => rfl
    | ok _ => exact writeElements_mask c t o fun arena b => by rw [Kernel.resolve_mask]
  | reduceLast op x o => exact runKernel_mask c _ fun (t, inner) => writeRows_mask c t _ x o inner _
  | argmax x o => exact runKernel_mask c _ fun (t, index, inner) => writeRows_mask c t _ x o inner _
  | gemm alpha a b beta o => exact gemm_mask c alpha a b beta o
  | matmul a b o => exact gemm_mask c _ a b _ o

theorem reduceAll_mask (c : Context) (op : ReduceOp) (x : Tensor) :
    (c.mask μ).reduceAll op x = c.reduceAll op x := by
  unfold reduceAll
  rw [check_mask]
  rfl

end Context

end StridedTensor
