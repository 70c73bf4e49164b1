import StridedTensor.Proofs.Containment
import StridedTensor.Proofs.Frame

/-!
# Tensors without their buffers

A tensor outlives its buffer, and so do the views of it. A context that does not hold the buffer of a tensor denies
every access through it (`Context.Stale.denies`): nothing is read and no byte changes, whatever the layout of the
tensor is, and whatever else an operation is given. The access is rejected as soon as the numbers of the tensor fit
(`Tensor.Fits`).
-/

namespace StridedTensor

/-- The elements of the tensor and their bytes can be counted in 64 bits, and its span can be computed there. -/
structure Tensor.Fits (t : Tensor) : Prop where
  numel : ∃ n, t.numel = .ok n
  nbytes : ∃ n, t.nbytes = .ok n
  span : ∃ s, t.span = .ok s

private theorem Tensor.Fits.numel_avoids {t : Tensor} (h : t.Fits) {f : Fault} : t.numel.Avoids f := by
  obtain ⟨n, hn⟩ := h.numel
  rw [hn]
  exact .ok n

/-- The test for contiguity stops only if the bytes of the elements cannot be counted. -/
private theorem Tensor.isContiguous_eq_halt {t : Tensor} {f : Fault} (h : t.isContiguous = Result.halt f) :
    f = .overflow ∧ ∀ n, t.nbytes ≠ .ok n := by
  refine ⟨?_, fun n hn => ?_⟩
  · by_contra hne
    have havoids : t.isContiguous.Avoids f := by
      unfold isContiguous Layout.isContiguous Layout.isPacked
      refine .bind (.ofWord? hne _) fun n _ => ?_
      split
      · exact .ok _
      · exact .ofWord? hne _
    exact havoids h
  · obtain ⟨b, hb⟩ := Tensor.isContiguous_of_nbytes hn
    simp [hb, Result.halt] at h

private theorem Tensor.Fits.isContiguous_avoids {t : Tensor} (h : t.Fits) {f : Fault} : t.isContiguous.Avoids f := by
  obtain ⟨n, hn⟩ := h.nbytes
  exact fun hhalt => (Tensor.isContiguous_eq_halt hhalt).2 n hn

/-- Without a value and without a fault there is an error. -/
private theorem Result.Sound.reject_of_ne_ok {α : Type} {r : Result α} (h : r.Sound) (hne : ∀ a, r ≠ .ok a) :
    ∃ e, r = Result.reject e := by
  cases r with
  | ok a => exact absurd rfl (hne a)
  | error e =>
    cases e with
    | error e => exact ⟨e, rfl⟩
    | fault f => exact absurd rfl (h f)

namespace Context

open Kernel

variable {c c' : Context} {t : Tensor}

/-! ### Calls that succeed -/

/-- A kernel in a strict context that succeeds on an output with elements has found all operands in order. -/
private theorem validate_of_map {g : (t : FloatType) → Arena → Buffer →
      Result (Array (Binary t.format) → Result (Array (Binary t.format)))} {x output : Tensor} (hs : c.strict = true)
    (h : c.runKernel (do unlessEmpty output (← checkUnary x output)) (fun t =>
      match c.validate x with
      | .error e => (.error e, c)
      | .ok _ => c.writeElements t output (g t)) = (.ok (), c')) (hne : output.numel ≠ .ok 0) :
    c.validate x = .ok () ∧ c.validate output = .ok () := by
  obtain ⟨t, n, -, hn, hrun⟩ := runKernel_unlessEmpty hs h
  rcases hrun with rfl | ⟨-, hrun⟩
  · exact absurd hn hne
  · cases hv : c.validate x with
    | error e => simp [hv] at hrun
    | ok _ =>
      simp only [hv] at hrun
      obtain ⟨_, _, _, ho, -⟩ := withOutput_eq_ok hrun
      exact ⟨rfl, ho⟩

/-- Reductions of rows write one element for each row. -/
theorem numel_of_checkRows {x output : Tensor} {t : FloatType} {outer inner : Nat}
    (h : checkRows x output = .ok (t, outer, inner)) : output.numel = .ok outer := by
  unfold checkRows at h
  simp only [Result.bind_eq_ok] at h
  obtain ⟨_, -, _, -, t', -, ⟨m, k⟩, -, n, hn, h⟩ := h
  by_cases hne : n = m
  · simp only [hne, ne_eq, not_true, if_false, Result.pure_eq_ok, Prod.mk.injEq] at h
    obtain ⟨-, rfl, -⟩ := h
    rw [hn, hne]
  · simp [hne] at h

private theorem validate_of_writeRows {t : FloatType} {type : ElementType} {x output : Tensor} {inner : Nat}
    {f : List (Binary t.format) → Nat} (h : c.writeRows t type x output inner f = (.ok (), c')) :
    c.validate x = .ok () ∧ c.validate output = .ok () := by
  unfold writeRows at h
  cases hv : c.validate x with
  | error e => simp [hv] at h
  | ok _ =>
    simp only [hv] at h
    obtain ⟨_, _, _, ho, -⟩ := withOutput_eq_ok h
    exact ⟨rfl, ho⟩

private theorem validate_of_binary {op : BinaryOp} {x y output : Tensor} (hs : c.strict = true)
    (h : c.binary op x y output = (.ok (), c')) (hne : output.numel ≠ .ok 0) :
    c.validate x = .ok () ∧ c.validate y = .ok () ∧ c.validate output = .ok () := by
  rcases (runKernel_eq_ok hs).1 h with ⟨hplan, -⟩ | ⟨t, -, hrun⟩
  · simp only [Result.bind_eq_ok] at hplan
    obtain ⟨t, -, _, -, hempty⟩ := hplan
    obtain ⟨n, hn, hnone⟩ := unlessEmpty_eq_ok.1 hempty
    by_cases h0 : n = 0
    · exact absurd (h0 ▸ hn) hne
    · simp [h0] at hnone
  · simp only at hrun
    cases hv : (do c.validate x; c.validate y; y.numel : Result Nat) with
    | error e => simp [hv] at hrun
    | ok count =>
      simp only [hv] at hrun
      simp only [Result.bind_eq_ok] at hv
      obtain ⟨_, hx, _, hy, -⟩ := hv
      obtain ⟨_, _, _, ho, -⟩ := withOutput_eq_ok hrun
      exact ⟨hx, hy, ho⟩

/-- A call that succeeds in a strict context and has something to write has found all operands in order. -/
private theorem validate_of_launch (hs : c.strict = true) {call : KernelCall Tensor} (h : c.launch call = (.ok (), c'))
    (hne : call.output.numel ≠ .ok 0) : ∀ u ∈ call.toList, c.validate u = .ok () := by
  cases call with
  | unary op x o =>
    have hmap : c.unary op x o = (.ok (), c') := h
    obtain ⟨hx, ho⟩ := validate_of_map hs hmap hne
    simp [KernelCall.toList, hx, ho]
  | binary op x y o =>
    obtain ⟨hx, hy, ho⟩ := validate_of_binary hs h hne
    simp [KernelCall.toList, hx, hy, ho]
  | scalarOp op x rhs o =>
    have hmap : c.scalarOp op x rhs o = (.ok (), c') := h
    obtain ⟨hx, ho⟩ := validate_of_map hs hmap hne
    simp [KernelCall.toList, hx, ho]
  | reduceLast op x o =>
    rcases (runKernel_eq_ok hs).1 h with ⟨hplan, -⟩ | ⟨⟨t, inner⟩, -, hrun⟩
    · obtain ⟨⟨t, outer, inner⟩, hcheck, hplan⟩ := Result.bind_eq_ok.1 hplan
      obtain ⟨_, -, hplan⟩ := Result.bind_eq_ok.1 hplan
      by_cases h0 : outer = 0
      · exact absurd (h0 ▸ numel_of_checkRows hcheck) hne
      · simp [h0] at hplan
    · obtain ⟨hx, ho⟩ := validate_of_writeRows hrun
      simp [KernelCall.toList, hx, ho]
  | argmax x o =>
    rcases (runKernel_eq_ok hs).1 h with ⟨hplan, -⟩ | ⟨⟨t, index, inner⟩, -, hrun⟩
    · obtain ⟨⟨t, outer, inner⟩, hcheck, hplan⟩ := Result.bind_eq_ok.1 hplan
      obtain ⟨_, -, hplan⟩ := Result.bind_eq_ok.1 hplan
      by_cases h0 : outer = 0
      · exact absurd (h0 ▸ numel_of_checkRows hcheck) hne
      · simp [h0] at hplan
    · obtain ⟨hx, ho⟩ := validate_of_writeRows hrun
      simp [KernelCall.toList, hx, ho]
  | gemm alpha a b beta o =>
    obtain ⟨t, e, ⟨ha, hb, ho⟩, -⟩ := gemm_eq_ok hs h hne
    simp [KernelCall.toList, ha.valid, hb.valid, ho.valid]
  | matmul a b o =>
    obtain ⟨t, e, ⟨ha, hb, ho⟩, -⟩ := gemm_eq_ok hs h hne
    simp [KernelCall.toList, ha.valid, hb.valid, ho.valid]

/-! ### Copies -/

theorem checkCopy_cases (source target : Tensor) :
    checkCopy source target = .ok () ∧ source.shape = target.shape ∨ ∃ e, checkCopy source target = Result.reject e := by
  unfold checkCopy
  split
  · exact .inr ⟨_, rfl⟩
  · split
    · exact .inr ⟨_, rfl⟩
    · rename_i hshape
      split
      · exact .inr ⟨_, rfl⟩
      · exact .inl ⟨rfl, by simpa [Tensor.sameShape] using hshape⟩

/-- What a context finds wrong with a tensor whose elements can be counted is an error. -/
theorem host_sound (hn : ∀ f, t.numel.Avoids f) : (c.host t).Sound := by
  cases hvalid : c.validate t with
  | ok _ =>
    rw [(hosts_of_validate hvalid).host]
    exact .ok _
  | error e =>
    intro f
    unfold host
    refine .bind (check_avoids (hn f)) fun found hfound => ?_
    simp [validate_eq_ok.2 ⟨found, hfound⟩] at hvalid

private theorem gather_sound {source : Tensor} (hn : ∀ f, source.numel.Avoids f) : (c.gather source).Sound := by
  cases hvalid : c.validate source with
  | ok _ =>
    have hhosts := hosts_of_validate hvalid
    obtain ⟨offsets, ho, -⟩ := hhosts.offsets
    rw [hhosts.gather ho]
    exact .ok _
  | error e =>
    intro f
    unfold gather
    refine .bind (host_sound hn f) fun _ hhost => ?_
    obtain ⟨found, hfound, -⟩ := Result.bind_eq_ok.1 hhost
    simp [validate_eq_ok.2 ⟨found, hfound⟩] at hvalid

/-! ### Stale tensors -/

/-- The tensor refers to a buffer that the context does not hold. -/
def Stale (c : Context) (t : Tensor) : Prop := ∃ id, t.buffer = some id ∧ c.arena.get? id = none

/-- What becomes of a call on a tensor that the context denies access to: an error, a failed precondition that a
lenient context passes over, or a stop because the bytes of an operand cannot be counted. -/
inductive Denial (c : Context) (call : KernelCall Tensor) : Result Unit → Prop
  | reject (e : TensorError) : Denial c call (Result.reject e)
  | skip (skips : c.Skips call) : Denial c call (.ok ())
  | halt {u : Tensor} (operand : u ∈ call.toList) (large : ∀ n, u.nbytes ≠ .ok n) :
    Denial c call (Result.halt .overflow)

/-- No access through the tensor succeeds, and none changes the context. -/
structure Denies (c : Context) (t : Tensor) : Prop where
  get : ∀ index, ∃ e, c.get t index = Result.reject e
  set : ∀ index value, ∃ e, c.set t index value = (Result.reject e, c)
  toList : ∀ type, ∃ e, c.toList t type = Result.reject e
  toScalar : ∃ e, c.toScalar t = Result.reject e
  fill : ∀ value, ∃ e, c.fill t value = (Result.reject e, c)
  copy_from : ∀ target, ∃ e, c.copy t target = (Result.reject e, c)
  copy_to : ∀ source, ∃ e, c.copy source t = (Result.reject e, c)
  /-- Calls with something to write, whichever operand the tensor is. -/
  launch : ∀ call, t ∈ call.toList → call.output.numel ≠ .ok 0 →
    c.Denial call (c.launch call).1 ∧ (c.launch call).2 = c
  /-- A lenient context yields the default scalar if a precondition fails that has nothing to do with the buffer. -/
  reduceAll : ∀ op, t.numel ≠ .ok 0 → (∃ e, c.reduceAll op t = Result.reject e) ∨
    c.reduceAll op t = .ok default ∧ c.strict = false ∧
      ∃ e, e.isPrecondition = true ∧ c.strictly.reduceAll op t = Result.reject e

namespace Stale

variable (h : c.Stale t)
include h

private theorem check_ne_ok (found : Option Buffer) : c.check t ≠ .ok found := by
  intro hcheck
  obtain ⟨id, hid, hget⟩ := h
  obtain ⟨-, hfound⟩ := check_eq_ok.1 hcheck
  rw [hid] at hfound
  obtain ⟨b, _, hb, -⟩ := hfound
  simp [hget] at hb

theorem isLive_eq_false : c.isLive t = false := by
  obtain ⟨id, hid, hget⟩ := h
  unfold isLive
  rw [hid]
  exact Table.contains_eq_false.2 hget

private theorem validate_ne_ok : c.validate t ≠ .ok () := fun hvalid => by
  obtain ⟨found, hcheck⟩ := validate_eq_ok.1 hvalid
  exact h.check_ne_ok found hcheck

theorem launch {call : KernelCall Tensor} (hmem : t ∈ call.toList) (hne : call.output.numel ≠ .ok 0) :
    c.Denial call (c.launch call).1 ∧ (c.launch call).2 = c := by
  have hconfined := c.launch_confined call
  have hskips : (c.launch call).1 = .ok () → c.Skips call := by
    intro hok
    by_contra hno
    have hrun : c.launch call = (.ok (), (c.launch call).2) := by rw [← hok]
    have hvalid := validate_of_launch rfl (launch_strictly hrun hno) hne t hmem
    exact h.validate_ne_ok hvalid
  cases hr : (c.launch call).1 with
  | ok _ => exact ⟨.skip (hskips hr), launch_of_skips (hskips hr)⟩
  | error e =>
    have hsame := hconfined.atomic (by simp [hr])
    cases e with
    | error e => exact ⟨.reject e, hsame⟩
    | fault f =>
      -- only a test for contiguity stops a call
      have hstop : ∃ u ∈ call.toList, u.isContiguous = Result.halt f := by
        by_contra hno
        exact launch_avoids (fun u hu hhalt => hno ⟨u, hu, hhalt⟩) hr
      obtain ⟨u, hu, hhalt⟩ := hstop
      obtain ⟨rfl, hlarge⟩ := Tensor.isContiguous_eq_halt hhalt
      exact ⟨.halt hu hlarge, hsame⟩

variable (hfits : t.Fits)
include hfits

theorem check : ∃ e, c.check t = Result.reject e :=
  Result.Sound.reject_of_ne_ok (fun _ => check_avoids hfits.numel_avoids) h.check_ne_ok

private theorem host : ∃ e, c.host t = Result.reject e := by
  obtain ⟨e, he⟩ := h.check hfits
  unfold Context.host
  rw [he]
  exact ⟨e, rfl⟩

private theorem updateHost : ∃ e, ∀ f, c.updateHost t f = (Result.reject e, c) := by
  obtain ⟨e, he⟩ := h.host hfits
  refine ⟨e, fun f => ?_⟩
  unfold Context.updateHost
  rw [he]
  rfl

theorem get (index : List Nat) : ∃ e, c.get t index = Result.reject e := by
  obtain ⟨s, hs⟩ := hfits.span
  unfold Context.get
  by_cases hi : List.Forall₂ (· < ·) index t.shape.toList
  · obtain ⟨e, he⟩ := h.host hfits
    rw [Tensor.elementOffset_of_span hs hi, Result.ok_bind, he]
    exact ⟨e, rfl⟩
  · rw [Tensor.elementOffset_of_not_below hi]
    exact ⟨_, rfl⟩

theorem set (index : List Nat) (value : Scalar) : ∃ e, c.set t index value = (Result.reject e, c) := by
  obtain ⟨s, hs⟩ := hfits.span
  unfold Context.set
  by_cases hi : List.Forall₂ (· < ·) index t.shape.toList
  · obtain ⟨e, he⟩ := h.updateHost hfits
    rw [Tensor.elementOffset_of_span hs hi]
    exact ⟨e, he _⟩
  · rw [Tensor.elementOffset_of_not_below hi]
    exact ⟨_, rfl⟩

theorem toList (type : ElementType) : ∃ e, c.toList t type = Result.reject e := by
  unfold Context.toList
  split
  · exact ⟨_, rfl⟩
  · obtain ⟨e, he⟩ := h.host hfits
    rw [he]
    exact ⟨e, rfl⟩

theorem toScalar : ∃ e, c.toScalar t = Result.reject e := by
  unfold Context.toScalar
  split
  · exact h.get hfits []
  · exact ⟨_, rfl⟩

theorem fill (value : Scalar) : ∃ e, c.fill t value = (Result.reject e, c) := by
  obtain ⟨e, he⟩ := h.updateHost hfits
  exact ⟨e, he _⟩

theorem copy_from (target : Tensor) : ∃ e, c.copy t target = (Result.reject e, c) := by
  obtain ⟨e, he⟩ := h.host hfits
  have hgather : c.gather t = Result.reject e := by
    unfold Context.gather
    rw [he]
    rfl
  unfold Context.copy
  rcases checkCopy_cases t target with ⟨hcheck, -⟩ | ⟨e', hcheck⟩
  · rw [hcheck, Result.ok_bind, hgather]
    exact ⟨e, rfl⟩
  · rw [hcheck]
    exact ⟨e', rfl⟩

/-- The source is read before the target is looked at, and its elements can be counted as it has the same shape. -/
theorem copy_to (source : Tensor) : ∃ e, c.copy source t = (Result.reject e, c) := by
  obtain ⟨e, he⟩ := h.updateHost hfits
  unfold Context.copy
  rcases checkCopy_cases source t with ⟨hcheck, hshape⟩ | ⟨e', hcheck⟩
  · have hsound : (c.gather source).Sound := gather_sound fun f => by
      rw [Tensor.numel, hshape]
      exact hfits.numel_avoids
    rw [hcheck, Result.ok_bind]
    cases hgather : c.gather source with
    | ok elements => exact ⟨e, he _⟩
    | error e' =>
      obtain ⟨e'', he''⟩ := hsound.reject_of_ne_ok fun elements => by simp [hgather]
      obtain rfl := Except.error.inj (hgather.symm.trans he'')
      exact ⟨e'', rfl⟩
  · rw [hcheck]
    exact ⟨e', rfl⟩

theorem reduceAll (op : ReduceOp) (hne : t.numel ≠ .ok 0) :
    (∃ e, c.reduceAll op t = Result.reject e) ∨ c.reduceAll op t = .ok default ∧ c.strict = false ∧
      ∃ e, e.isPrecondition = true ∧ c.strictly.reduceAll op t = Result.reject e := by
  have hmode : c.reduceAll op t = c.lenient default (c.strictly.reduceAll op t) := by
    unfold Context.reduceAll
    rw [lenient_of_strict (c := c.strictly) rfl]
    rfl
  have hreject : ∃ e, c.strictly.reduceAll op t = Result.reject e := by
    unfold Context.reduceAll
    rw [lenient_of_strict rfl]
    have hcheck : ∀ found, c.strictly.check t ≠ .ok found := h.check_ne_ok
    refine Result.Sound.reject_of_ne_ok (fun f => ?_) fun value hvalue => ?_
    · refine .bind (checkOperand_avoids hfits.isContiguous_avoids) fun _ _ => .bind (checkFloat_avoids t) fun type _ =>
        .bind hfits.numel_avoids fun n _ => ?_
      split
      · exact .ok _
      · exact .bind (check_avoids hfits.numel_avoids) fun found hfound => absurd hfound (hcheck found)
    · simp only [Result.bind_eq_ok] at hvalue
      obtain ⟨_, -, type, -, n, hn, hvalue⟩ := hvalue
      by_cases h0 : n = 0
      · exact hne (h0 ▸ hn)
      · rw [if_neg h0] at hvalue
        obtain ⟨found, hfound, -⟩ := Result.bind_eq_ok.1 hvalue
        exact hcheck found hfound
  obtain ⟨e, he⟩ := hreject
  rw [hmode, he]
  by_cases hpass : (!c.strict && e.isPrecondition) = true
  · rw [Bool.and_eq_true, Bool.not_eq_true'] at hpass
    refine .inr ⟨?_, hpass.1, e, hpass.2, rfl⟩
    simp [lenient, Result.reject, hpass]
  · refine .inl ⟨e, ?_⟩
    simp [lenient, Result.reject, hpass]

theorem denies : c.Denies t where
  get := h.get hfits
  set := h.set hfits
  toList := h.toList hfits
  toScalar := h.toScalar hfits
  fill := h.fill hfits
  copy_from := h.copy_from hfits
  copy_to := h.copy_to hfits
  launch _ hmem hne := h.launch hmem hne
  reduceAll op hne := h.reduceAll hfits op hne

end Stale

end Context

end StridedTensor
