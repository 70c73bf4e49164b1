import StridedTensor.Proofs.Entries
import StridedTensor.Proofs.Faults
import StridedTensor.Session.Run

/-!
# What kernels leave alone

A kernel changes no byte outside the span of its output, and none at all if it fails or is skipped
(`step_kernel_frame`). All that can go wrong does so before the first byte is written, and the buffer that is taken
out of the arena for the time of the call is put back whatever happens.
-/

namespace StridedTensor

/-- The buffer with zeros for its bytes: its place, length, alignment, device and origin. -/
def Buffer.blank (b : Buffer) : Buffer := { b with contents := Array.replicate b.size 0 }

private theorem Buffer.blank_setContents {b : Buffer} {contents : Bytes} (h : contents.size = b.size) :
    Buffer.blank { b with contents } = b.blank := by
  unfold blank
  rw [show Buffer.size { b with contents } = b.size from h]

namespace Kernel

variable {α : Type}

private theorem put_size {xs ys : Array α} {i : Nat} {x : α} (h : put xs i x = .ok ys) : ys.size = xs.size := by
  unfold put at h
  split at h
  · obtain rfl : _ = ys := by simpa using h
    simp
  · simp at h

private theorem updateEach_size {f : Array α → Nat → Result α} {xs ys : Array α} (h : updateEach f xs = .ok ys) :
    ys.size = xs.size := by
  refine Result.foldlM_induct (motive := fun zs => zs.size = xs.size) (fun i _ zs zs' hz hstep => ?_) h rfl
  obtain ⟨_, -, hput⟩ := Result.bind_eq_ok.1 hstep
  rw [put_size hput, hz]

private theorem gemmCells_size {t : FloatType} {alpha : Binary t.accumulator} {a b : Array (Binary t.format)}
    {beta : Option (Binary t.accumulator)} {e : GemmExtents} {c c' : Array (Binary t.format)}
    (h : gemmCells t alpha a b beta e c = .ok c') : c'.size = c.size := by
  refine Result.foldlM_induct (motive := fun z => z.size = c.size) (fun p _ z z' hz hstep => ?_) h rfl
  obtain ⟨_, -, hstep⟩ := Result.bind_eq_ok.1 hstep
  cases beta <;>
  · obtain ⟨_, -, hput⟩ := Result.bind_eq_ok.1 hstep
    rw [put_size hput, hz]

/-- The bytes of the output are those of its span. -/
theorem outputBytes_eq_ok {type : ElementType} {b : Buffer} {output : Tensor} {s : Span} {bytes : List UInt8}
    (h : outputBytes type b output = .ok (s, bytes)) : output.span = .ok s ∧ bytes.length = s.length := by
  unfold outputBytes spanBytes? at h
  obtain ⟨s', hs, h⟩ := Result.bind_eq_ok.1 h
  cases hread : b.contents.read? s'.start s'.length with
  | none => simp [hread] at h
  | some found =>
    simp only [hread] at h
    split at h
    · obtain ⟨rfl, rfl⟩ : s' = s ∧ found = bytes := by simpa using h
      refine ⟨hs, ?_⟩
      unfold Bytes.read? at hread
      split at hread
      · obtain rfl := Option.some.inj hread
        simp
      · cases hread
    · simp at h

private theorem length_load (t : FloatType) (bytes : List UInt8) :
    (load t bytes).size = bytes.length / t.element.size := by
  simp [load, Bytes.words]

end Kernel

namespace Context

variable {c c' : Context} {t output : Tensor}

/-- The context but for the bytes in its buffers. -/
def blank (c : Context) : Context := { c with arena := Table.map Buffer.blank c.arena }

/-- `c'` is `c` but for bytes in the span of `t`: its arena has the same buffers, each of the same length, on the same
device and of the same origin. -/
structure ChangesWithin (c : Context) (t : Tensor) (c' : Context) : Prop where
  blank : c'.blank = c.blank
  bytes : ∀ {id b b'}, c.arena.get? id = some b → c'.arena.get? id = some b' →
    ∀ i, b'.contents[i]? ≠ b.contents[i]? → t.buffer = some id ∧ ∃ s, t.span = .ok s ∧ s.start ≤ i ∧ i < s.stop

theorem ChangesWithin.refl (c : Context) (t : Tensor) : c.ChangesWithin t c where
  blank := rfl
  bytes hb hb' i hi := by
    obtain rfl := Option.some.inj (hb.symm.trans hb')
    exact absurd rfl hi

theorem blank_setContents {contents : Bytes} {id : BufferId} {b : Buffer} (hid : t.buffer = some id)
    (hb : c.arena.get? id = some b) (hsize : contents.size = b.size) : (c.setContents t contents).blank = c.blank := by
  unfold setContents blank
  simp only [hid, hb]
  rw [Table.map_replace hb (Buffer.blank_setContents hsize)]

private theorem changesWithin_setContents {contents : Bytes} {id : BufferId} {b : Buffer} {s : Span}
    (hid : t.buffer = some id) (hb : c.arena.get? id = some b) (hs : t.span = .ok s)
    (hsize : contents.size = b.size) (hbytes : ∀ i, contents[i]? ≠ b.contents[i]? → s.start ≤ i ∧ i < s.stop) :
    c.ChangesWithin t (c.setContents t contents) where
  blank := blank_setContents hid hb hsize
  bytes := by
    intro j b₀ b₁ hj hj' i hi
    rw [get?_setContents, hj] at hj'
    by_cases h : t.buffer = some j
    · rw [if_pos h] at hj'
      obtain rfl := Option.some.inj hj'
      obtain rfl : id = j := Option.some.inj (hid.symm.trans h)
      obtain rfl : b = b₀ := Option.some.inj (hb.symm.trans hj)
      exact ⟨hid, s, hs, hbytes i hi⟩
    · rw [if_neg h] at hj'
      obtain rfl := Option.some.inj hj'
      exact absurd rfl hi

/-! ### Attempts to write -/

/-- An attempt to write `t`, with its outcome: it changes nothing unless it succeeds, and then no byte outside the
span of `t`. -/
structure Confined (c : Context) (t : Tensor) (outcome : Result Unit × Context) : Prop where
  atomic : outcome.1 ≠ .ok () → outcome.2 = c
  within : c.ChangesWithin t outcome.2

private theorem Confined.unchanged (r : Result Unit) : c.Confined t (r, c) := ⟨fun _ => rfl, .refl c t⟩

private theorem withOutput_confined {f : Arena → Buffer → Result Bytes}
    (hf : ∀ id b contents, f (c.arena.erase id) b = .ok contents → ∃ s, output.span = .ok s ∧ contents.size = b.size ∧
      ∀ i, contents[i]? ≠ b.contents[i]? → s.start ≤ i ∧ i < s.stop) : c.Confined output (c.withOutput output f) := by
  cases h : c.withOutput output f with
  | mk r c' =>
    cases r with
    | ok _ =>
      obtain ⟨id, b, contents, -, hid, hb, hcontents, rfl⟩ := withOutput_eq_ok h
      obtain ⟨s, hs, hsize, hbytes⟩ := hf id b contents hcontents
      exact ⟨fun hne => absurd rfl hne, changesWithin_setContents hid hb hs hsize hbytes⟩
    | error e =>
      -- the buffer is put back as it was taken out
      suffices hc : c' = c by
        rw [hc]
        exact .unchanged _
      unfold withOutput Arena.withOutput at h
      cases hcheck : c.check output with
      | error e' =>
        simp only [hcheck, Prod.mk.injEq] at h
        exact h.2.symm
      | ok found =>
        cases hid : output.buffer with
        | none =>
          simp only [hcheck, hid, Prod.mk.injEq] at h
          exact h.2.symm
        | some id =>
          cases hb : c.arena.get? id with
          | none =>
            simp only [hcheck, hid, hb, Prod.mk.injEq] at h
            exact h.2.symm
          | some b =>
            simp only [hcheck, hid, hb] at h
            cases hr : (b.hostBytes >>= fun _ => f (c.arena.erase id) b) with
            | ok contents => simp [hr] at h
            | error e' =>
              simp only [hr, Prod.mk.injEq, Table.replace_of_get? hb] at h
              exact h.2.symm

/-- Elements that are stored at the start of the output and are no more than it has room for stay inside it. -/
private theorem store_within {type : ElementType} {b : Buffer} {s : Span} {bytes : List UInt8} {patterns : List Nat}
    (hbytes : Kernel.outputBytes type b output = .ok (s, bytes)) (hle : patterns.length ≤ bytes.length / type.size) :
    ∃ s', output.span = .ok s' ∧ (b.contents.write s.start (Kernel.store type patterns)).size = b.size ∧
      ∀ i, (b.contents.write s.start (Kernel.store type patterns))[i]? ≠ b.contents[i]? → s'.start ≤ i ∧ i < s'.stop := by
  obtain ⟨hs, hlen⟩ := Kernel.outputBytes_eq_ok hbytes
  have hstart := Tensor.span_le hs
  have hroom : type.size * patterns.length ≤ s.length := by
    rw [← hlen]
    exact (Nat.mul_le_mul_left _ hle).trans (Nat.mul_div_le _ _)
  refine ⟨s, hs, Bytes.size_write _ _ _, fun i hi => ?_⟩
  rw [Bytes.getElem?_write] at hi
  have hin : s.start ≤ i ∧ i < s.start + (Kernel.store type patterns).length ∧ i < b.contents.size := by
    by_contra hout
    exact hi (if_neg hout)
  rw [Bytes.length_store] at hin
  unfold Span.length at hroom
  omega

private theorem writeElements_confined {type : FloatType}
    {kernel : Arena → Buffer → Result (Array (Binary type.format) → Result (Array (Binary type.format)))}
    (hk : ∀ arena b run xs ys, kernel arena b = .ok run → run xs = .ok ys → ys.size = xs.size) :
    c.Confined output (c.writeElements type output kernel) := by
  apply withOutput_confined
  intro id b contents h
  obtain ⟨run, hrun, h⟩ := Result.bind_eq_ok.1 h
  obtain ⟨⟨s, bytes⟩, hbytes, h⟩ := Result.bind_eq_ok.1 h
  obtain ⟨ys, hys, h⟩ := Result.bind_eq_ok.1 h
  obtain rfl := Result.pure_eq_ok.1 h
  apply store_within hbytes
  rw [List.length_map, Array.length_toList, hk _ _ _ _ _ hrun hys, Kernel.length_load]

private theorem writeRows_confined (type : FloatType) (stored : ElementType) (x : Tensor) (inner : Nat)
    (f : List (Binary type.format) → Nat) : c.Confined output (c.writeRows type stored x output inner f) := by
  unfold writeRows
  cases c.validate x with
  | error e => exact .unchanged _
  | ok _ =>
    apply withOutput_confined
    intro id b contents h
    obtain ⟨operand, -, h⟩ := Result.bind_eq_ok.1 h
    obtain ⟨⟨s, bytes⟩, hbytes, h⟩ := Result.bind_eq_ok.1 h
    obtain rfl := Result.pure_eq_ok.1 h
    apply store_within hbytes
    split
    · rw [List.length_replicate]
    · rw [List.length_map]
      exact List.length_take_le _ _

private theorem runKernel_confined {κ : Type} {plan : Result (Option κ)} {kernel : κ → Result Unit × Context}
    (hk : ∀ k, c.Confined output (kernel k)) : c.Confined output (c.runKernel plan kernel) := by
  unfold runKernel
  cases plan with
  | error e => exact .unchanged _
  | ok found =>
    cases found with
    | none => exact .unchanged _
    | some k =>
      -- what is passed over is a failure, and nothing has changed
      refine ⟨fun hne => (hk k).atomic fun hok => hne ?_, (hk k).within⟩
      simp only [hok]
      rfl

/-! ### Calls -/

private theorem gemm_confined (c : Context) (alpha : Binary .double) (a b : Tensor) (beta : Binary .double)
    (output : Tensor) : c.Confined output (c.gemm alpha a b beta output) := by
  apply runKernel_confined
  rintro ⟨type, e⟩
  simp only
  cases (do c.validate a; c.validate b : Result Unit) with
  | error e => exact .unchanged _
  | ok _ =>
    apply writeElements_confined
    intro arena buffer run xs ys hrun hys
    obtain ⟨_, -, hrun⟩ := Result.bind_eq_ok.1 hrun
    obtain ⟨_, -, hrun⟩ := Result.bind_eq_ok.1 hrun
    obtain rfl := Result.pure_eq_ok.1 hrun
    exact Kernel.gemmCells_size hys

theorem launch_confined (c : Context) (call : KernelCall Tensor) : c.Confined call.output (c.launch call) := by
  cases call with
  | unary op x o =>
    apply runKernel_confined
    intro type
    cases c.validate x with
    | error e => exact .unchanged _
    | ok _ =>
      apply writeElements_confined
      intro arena buffer run xs ys hrun hys
      obtain ⟨_, -, hrun⟩ := Result.bind_eq_ok.1 hrun
      obtain rfl := Result.pure_eq_ok.1 hrun
      exact Kernel.updateEach_size hys
  | binary op x y o =>
    apply runKernel_confined
    intro type
    cases (do c.validate x; c.validate y; y.numel : Result Nat) with
    | error e => exact .unchanged _
    | ok count =>
      apply writeElements_confined
      intro arena buffer run xs ys hrun hys
      obtain ⟨_, -, hrun⟩ := Result.bind_eq_ok.1 hrun
      obtain ⟨_, -, hrun⟩ := Result.bind_eq_ok.1 hrun
      obtain rfl := Result.pure_eq_ok.1 hrun
      simp only at hys
      split at hys <;>
      · obtain ⟨_, -, hys⟩ := Result.bind_eq_ok.1 hys
        exact Kernel.updateEach_size hys
  | scalarOp op x rhs o =>
    apply runKernel_confined
    intro type
    cases c.validate x with
    | error e => exact .unchanged _
    | ok _ =>
      apply writeElements_confined
      intro arena buffer run xs ys hrun hys
      obtain ⟨_, -, hrun⟩ := Result.bind_eq_ok.1 hrun
      obtain rfl := Result.pure_eq_ok.1 hrun
      exact Kernel.updateEach_size hys
  | reduceLast op x o => exact runKernel_confined fun _ => writeRows_confined _ _ x _ _
  | argmax x o => exact runKernel_confined fun _ => writeRows_confined _ _ x _ _
  | gemm alpha a b beta o => exact gemm_confined c alpha a b beta o
  | matmul a b o => exact gemm_confined c _ a b _ o

theorem launch_of_skips {call : KernelCall Tensor} (h : c.Skips call) : (c.launch call).2 = c := by
  obtain ⟨hmode, e, -, he⟩ := h
  obtain ⟨r, c', hl, hs⟩ := launch_eq c call
  have hstrict : c'.strictly = c.strictly := by
    have hatomic := (launch_confined c.strictly call).atomic
    rw [he, hs] at hatomic
    exact hatomic (by simp)
  have hblank := (launch_confined c call).within.blank
  rw [hl] at hblank ⊢
  -- the two agree but for strictness, and that is not a matter of bytes
  have hsame : c'.strict = c.strict := congrArg (·.strict) hblank
  obtain ⟨_, _, _, _⟩ := c
  obtain ⟨_, _, _, _⟩ := c'
  simp only [strictly, mk.injEq, true_and] at hstrict hsame ⊢
  exact ⟨hstrict.1, hstrict.2.1, hsame, hstrict.2.2⟩

end Context

namespace Session

variable {s : Session} {k : Nat} {c : Context}

/-- A kernel call leaves everything outside its context as it is: the resources with the ledgers, the other contexts,
the tensors of the client. Inside the context it changes no byte outside the span of its output, and none if it fails
or is skipped. It stops only where a test for contiguity stops, and by then nothing has been taken out of the
arena. -/
theorem step_kernel_frame (hc : s.context? k = some c) :
    (∀ call operands, KernelCall.operands? s.tensor? call = some operands →
      ∃ reply c', s.step k (.kernel call) = some (reply, { s with contexts := s.contexts.set k (some c') }) ∧
        c' = (c.launch operands).2 ∧ (∀ e, (c.launch operands).1 = .error e → reply = .error e) ∧
        c.ChangesWithin operands.output c' ∧
        ((c.launch operands).1 ≠ .ok () ∨ c.Skips operands → c' = c) ∧
        ∀ f, (c.launch operands).1 = Result.halt f → ∃ t ∈ operands.toList, t.isContiguous = Result.halt f) ∧
    ∀ op x t, s.tensor? x = some t → s.step k (.reduceAll op x) = some (Reply.scalar <$> c.reduceAll op t, s) := by
  refine ⟨fun call operands hops => ?_, fun op x t ht => ?_⟩
  · have hconfined := c.launch_confined operands
    have hstep : ∃ reply, s.step k (.kernel call) =
          some (reply, { s with contexts := s.contexts.set k (some (c.launch operands).2) }) ∧
        ∀ e, (c.launch operands).1 = .error e → reply = .error e := by
      unfold step
      simp only [hc, hops, Option.bind_eq_bind, Option.bind_some]
      unfold readBack
      split
      · rename_i c' h
        rw [h]
        exact ⟨_, rfl, fun e he => by simp at he⟩
      · rename_i e c' h
        rw [h]
        exact ⟨_, rfl, fun e' he => by simpa using he⟩
    obtain ⟨reply, hstep, hreply⟩ := hstep
    refine ⟨reply, _, hstep, rfl, hreply, hconfined.within, ?_, ?_⟩
    · rintro (hne | hskip)
      · exact hconfined.atomic hne
      · exact Context.launch_of_skips hskip
    · intro f hf
      by_contra hno
      refine Context.launch_avoids (fun t ht hstop => hno ⟨t, ht, hstop⟩) hf
  · unfold step
    simp only [hc, ht, Option.bind_eq_bind, Option.bind_some]
    rfl

/-! ### A call in a session -/

/-- A client that holds overlapping tensors of one context. -/
def oneToFour : Session := ⟨.initial, [some Context.oneToFour], [("a", Context.floatsFrom 0 [3] [4]),
  ("b", Context.floatsFrom 1 [3] [4])]⟩

theorem oneToFour_frame :
    (∀ call operands, KernelCall.operands? oneToFour.tensor? call = some operands →
      ∃ reply c', oneToFour.step 0 (.kernel call) =
          some (reply, { oneToFour with contexts := oneToFour.contexts.set 0 (some c') }) ∧
        c' = (Context.oneToFour.launch operands).2 ∧
        (∀ e, (Context.oneToFour.launch operands).1 = .error e → reply = .error e) ∧
        Context.oneToFour.ChangesWithin operands.output c' ∧
        ((Context.oneToFour.launch operands).1 ≠ .ok () ∨ Context.oneToFour.Skips operands → c' = Context.oneToFour) ∧
        ∀ f, (Context.oneToFour.launch operands).1 = Result.halt f →
          ∃ t ∈ operands.toList, t.isContiguous = Result.halt f) ∧
    ∀ op x t, oneToFour.tensor? x = some t →
      oneToFour.step 0 (.reduceAll op x) = some (Reply.scalar <$> Context.oneToFour.reduceAll op t, oneToFour) :=
  step_kernel_frame rfl

end Session

end StridedTensor
