import StridedTensor.Kernel.Call
import StridedTensor.Proofs.Result

/-!
# Lenient contexts

A lenient context runs a kernel as a strict one does, and only then decides whether to pass over what went wrong
(`launch_eq`). So a call that succeeds and is not skipped is one that succeeds in the strict context too
(`launch_strictly`), and facts about kernels need to be proved for strict contexts only.
-/

namespace StridedTensor.Context

variable {c c' : Context}

def strictly (c : Context) : Context := { c with strict := true }

/-- The call fails a precondition, and the context passes over it. -/
def Skips (c : Context) (call : KernelCall Tensor) : Prop :=
  c.strict = false ∧ ∃ e : TensorError, e.isPrecondition = true ∧ (c.strictly.launch call).1 = Result.reject e

theorem lenient_of_strict {α : Type} (hs : c.strict = true) (skipped : α) (r : Result α) :
    c.lenient skipped r = r := by
  unfold lenient
  rw [hs]
  split <;> simp

/-- A lenient context does not turn an error into success unless it is a precondition that failed. -/
private theorem lenient_eq_ok {r : Result Unit} (h : c.lenient () r = .ok ()) :
    r = .ok () ∨ c.strict = false ∧ ∃ e : TensorError, e.isPrecondition = true ∧ r = Result.reject e := by
  unfold lenient at h
  split at h
  · rename_i e
    by_cases hp : (!c.strict && e.isPrecondition) = true
    · right
      rw [Bool.and_eq_true, Bool.not_eq_true'] at hp
      exact ⟨hp.1, e, hp.2, rfl⟩
    · rw [if_neg hp] at h
      exact .inl h
  · exact .inl h

theorem lenient_avoids {α : Type} {skipped : α} {f : Fault} {r : Result α} (hr : r.Avoids f) :
    (c.lenient skipped r).Avoids f := by
  unfold lenient
  split
  · split
    · exact .ok _
    · exact hr
  · exact hr

theorem runKernel_avoids {κ : Type} {plan : Result (Option κ)} {kernel : κ → Result Unit × Context} {f : Fault}
    (hplan : plan.Avoids f) (hk : ∀ k, plan = .ok (some k) → (kernel k).1.Avoids f) :
    (c.runKernel plan kernel).1.Avoids f := by
  unfold runKernel
  cases plan with
  | error e => exact lenient_avoids hplan.error
  | ok found =>
    cases found with
    | none => exact .ok _
    | some k => exact lenient_avoids (hk k rfl)

/-! ### Both runs side by side -/

private theorem withOutput_strictly (c : Context) (output : Tensor) (f : Arena → Buffer → Result Bytes) :
    c.strictly.withOutput output f = ((c.withOutput output f).1, (c.withOutput output f).2.strictly) := by
  unfold withOutput
  rw [show c.strictly.check output = c.check output from rfl, show c.strictly.arena = c.arena from rfl]
  cases c.check output with
  | error e => rfl
  | ok found =>
    cases output.buffer with
    | none => rfl
    | some id =>
      simp only
      split <;> rfl

/-- Two runs of a kernel that agree but for strictness. -/
private theorem runKernel_strictly {κ : Type} {plan : Result (Option κ)} {kernel kernel' : κ → Result Unit × Context}
    (hk : ∀ k, kernel' k = ((kernel k).1, (kernel k).2.strictly)) :
    ∃ r c', c.runKernel plan kernel = (c.lenient () r, c') ∧ c.strictly.runKernel plan kernel' = (r, c'.strictly) := by
  have hl : ∀ r : Result Unit, c.strictly.lenient () r = r := lenient_of_strict rfl ()
  unfold runKernel
  cases plan with
  | error e => exact ⟨.error e, c, rfl, by simp only [hl]⟩
  | ok found =>
    cases found with
    | none => exact ⟨.ok (), c, rfl, rfl⟩
    | some k => exact ⟨(kernel k).1, (kernel k).2, rfl, by simp only [hl, hk]⟩

private theorem writeElements_strictly (c : Context) (t : FloatType) (output : Tensor)
    (kernel : Arena → Buffer → Result (Array (Binary t.format) → Result (Array (Binary t.format)))) :
    c.strictly.writeElements t output kernel =
      ((c.writeElements t output kernel).1, (c.writeElements t output kernel).2.strictly) :=
  withOutput_strictly c output _

private theorem writeRows_strictly (c : Context) (t : FloatType) (type : ElementType) (x output : Tensor)
    (inner : Nat) (f : List (Binary t.format) → Nat) :
    c.strictly.writeRows t type x output inner f =
      ((c.writeRows t type x output inner f).1, (c.writeRows t type x output inner f).2.strictly) := by
  unfold writeRows
  rw [show c.strictly.validate x = c.validate x from rfl]
  cases c.validate x with
  | error e => rfl
  | ok _ => exact withOutput_strictly c output _

private theorem gemm_strictly (c : Context) (alpha : Binary .double) (a b : Tensor) (beta : Binary .double)
    (o : Tensor) :
    ∃ r c', c.gemm alpha a b beta o = (c.lenient () r, c') ∧
      c.strictly.gemm alpha a b beta o = (r, c'.strictly) := by
  apply runKernel_strictly
  intro k
  rw [show c.strictly.validate a = c.validate a from rfl, show c.strictly.validate b = c.validate b from rfl]
  cases (do c.validate a; c.validate b : Result Unit) with
  | error e => rfl
  | ok _ => exact writeElements_strictly c _ o _

/-- A call leaves the same state behind in both modes, and differs in its outcome only by what `lenient` makes of
it. -/
theorem launch_eq (c : Context) (call : KernelCall Tensor) :
    ∃ r c', c.launch call = (c.lenient () r, c') ∧ c.strictly.launch call = (r, c'.strictly) := by
  cases call with
  | unary op x o =>
    apply runKernel_strictly
    intro t
    rw [show c.strictly.validate x = c.validate x from rfl]
    cases c.validate x with
    | error e => rfl
    | ok _ => exact writeElements_strictly c t o _
  | binary op x y o =>
    apply runKernel_strictly
    intro t
    rw [show c.strictly.validate x = c.validate x from rfl, show c.strictly.validate y = c.validate y from rfl]
    cases (do c.validate x; c.validate y; y.numel : Result Nat) with
    | error e => rfl
    | ok count => exact writeElements_strictly c t o _
  | scalarOp op x rhs o =>
    apply runKernel_strictly
    intro t
    rw [show c.strictly.validate x = c.validate x from rfl]
    cases c.validate x with
    | error e => rfl
    | ok _ => exact writeElements_strictly c t o _
  | reduceLast op x o => exact runKernel_strictly fun (t, inner) => writeRows_strictly c t _ x o inner _
  | argmax x o => exact runKernel_strictly fun (t, index, inner) => writeRows_strictly c t _ x o inner _
  | gemm alpha a b beta o => exact gemm_strictly c alpha a b beta o
  | matmul a b o => exact gemm_strictly c _ a b _ o

/-- A call that succeeds without being skipped succeeds in the strict context. -/
theorem launch_strictly {call : KernelCall Tensor} (h : c.launch call = (.ok (), c')) (hskip : ¬ c.Skips call) :
    c.strictly.launch call = (.ok (), c'.strictly) := by
  obtain ⟨r, c'', hl, hs⟩ := launch_eq c call
  rw [hl, Prod.mk.injEq] at h
  obtain ⟨hr, rfl⟩ := h
  rcases lenient_eq_ok hr with rfl | ⟨hstrict, e, he, rfl⟩
  · exact hs
  · exact absurd ⟨hstrict, e, he, by rw [hs]⟩ hskip

/-- What succeeds in the strict context succeeds, and is not skipped. -/
theorem launch_of_strictly {call : KernelCall Tensor} (h : (c.strictly.launch call).1 = .ok ()) :
    (c.launch call).1 = .ok () ∧ ¬ c.Skips call := by
  obtain ⟨r, c', hl, hs⟩ := launch_eq c call
  rw [hs] at h
  obtain rfl : r = .ok () := h
  refine ⟨by rw [hl]; rfl, ?_⟩
  rintro ⟨-, e, -, he⟩
  rw [hs] at he
  exact Result.reject_ne_ok e () he.symm

theorem not_skips_of_reject {call : KernelCall Tensor} {e : TensorError} (he : e.isPrecondition = false)
    (h : (c.strictly.launch call).1 = Result.reject e) : ¬ c.Skips call := by
  rintro ⟨-, e', he', h'⟩
  obtain rfl : e = e' := by simpa [Result.reject] using h.symm.trans h'
  exact Bool.noConfusion (he.symm.trans he')

/-! ### Strict runs -/

/-- A kernel that succeeds in a strict context had nothing to do or ran to its end. -/
theorem runKernel_eq_ok {κ : Type} (hs : c.strict = true) {plan : Result (Option κ)}
    {kernel : κ → Result Unit × Context} :
    c.runKernel plan kernel = (.ok (), c') ↔
      (plan = .ok none ∧ c' = c) ∨ ∃ k, plan = .ok (some k) ∧ kernel k = (.ok (), c') := by
  unfold runKernel
  cases plan with
  | error e => simp [lenient_of_strict hs]
  | ok found =>
    cases found with
    | none => simp [eq_comm]
    | some k => simp [lenient_of_strict hs, Prod.ext_iff]

end StridedTensor.Context
