import StridedTensor.Error

/-!
# Results

How a result passes through the steps that follow it, and the results without a fault: a value or an error that
the caller is told of (`Result.Sound`).
-/

namespace StridedTensor.Result

variable {α β : Type}

@[simp] theorem ok_bind (a : α) (f : α → Result β) : (Except.ok a >>= f) = f a := rfl

@[simp] theorem error_bind (e : Failure) (f : α → Result β) : ((Except.error e : Result α) >>= f) = .error e := rfl

@[simp] theorem reject_bind (e : TensorError) (f : α → Result β) : (reject e >>= f) = reject e := rfl

@[simp] theorem halt_bind (e : Fault) (f : α → Result β) : (halt e >>= f) = halt e := rfl

@[simp] theorem reject_ne_ok (e : TensorError) (a : α) : reject e ≠ .ok a := by simp [reject]

@[simp] theorem halt_ne_ok (e : Fault) (a : α) : halt e ≠ .ok a := by simp [halt]

@[simp] theorem pure_eq_ok {a b : α} : (pure a : Result α) = .ok b ↔ a = b := by simp [pure, Except.pure]

theorem discard_eq_ok {r : Result α} : discard r = .ok () ↔ ∃ a, r = .ok a := by
  cases r <;> simp [discard, Functor.discard, Functor.mapConst, Except.map]

theorem map_eq_ok {r : Result α} {f : α → β} {b : β} : r.map f = .ok b ↔ ∃ a, r = .ok a ∧ f a = b := by
  cases r <;> simp [Except.map]

theorem mapM_eq_ok {f : α → Result β} {g : α → β} {xs : List α} (h : ∀ x ∈ xs, f x = .ok (g x)) :
    xs.mapM f = .ok (xs.map g) := by
  induction xs with
  | nil => rfl
  | cons x xs ih =>
    rw [List.mapM_cons, h x (by simp), ih fun y hy => h y (by simp [hy])]
    rfl

theorem foldlM_eq_ok {f : β → α → Result β} {g : β → α → β} {xs : List α} (h : ∀ x ∈ xs, ∀ b, f b x = .ok (g b x))
    (b : β) : xs.foldlM f b = .ok (xs.foldl g b) := by
  induction xs generalizing b with
  | nil => rfl
  | cons x xs ih =>
    rw [List.foldlM_cons, h x (by simp), ok_bind, List.foldl_cons]
    exact ih (fun y hy => h y (by simp [hy])) _

/-- What each step of a loop preserves holds at its end. -/
theorem foldlM_induct {f : β → α → Result β} {motive : β → Prop} {xs : List α}
    (step : ∀ x ∈ xs, ∀ b b', motive b → f b x = .ok b' → motive b') {b b' : β} (h : xs.foldlM f b = .ok b')
    (hb : motive b) : motive b' := by
  induction xs generalizing b with
  | nil =>
    obtain rfl := pure_eq_ok.1 h
    exact hb
  | cons x xs ih =>
    rw [List.foldlM_cons] at h
    obtain ⟨b₁, hx, h⟩ := bind_eq_ok.1 h
    exact ih (fun y hy => step y (by simp [hy])) h (step x (by simp) b b₁ hb hx)

/-! ### Faults that do not occur -/

/-- The computation does not stop with the fault `f`. -/
def Avoids (f : Fault) (r : Result α) : Prop := r ≠ halt f

variable {f : Fault}

theorem Avoids.ok (a : α) : Avoids f (.ok a) := by simp [Avoids, halt]

theorem Avoids.reject (e : TensorError) : Avoids f (reject e : Result α) := by simp [Avoids, Result.reject, halt]

theorem Avoids.ofWord? (hf : f ≠ .overflow) (o : Option α) : Avoids f (ofWord? o) := by
  cases o with
  | none =>
    intro h
    simp only [Result.ofWord?, halt, Except.error.injEq, Failure.fault.injEq] at h
    exact hf h.symm
  | some a => exact .ok a

theorem Avoids.ofSpanEnd? (o : Option α) : Avoids f (ofSpanEnd? o) := by
  cases o with
  | none => exact .reject _
  | some a => exact .ok a

theorem Avoids.error {e : Failure} (h : Avoids f (Except.error e : Result α)) : Avoids f (Except.error e : Result β) := by
  intro he
  apply h
  simp only [halt, Except.error.injEq] at he ⊢
  exact he

/-- Two steps avoid a fault if the first does and the second does for each of its values. -/
theorem Avoids.bind {r : Result α} {g : α → Result β} (hr : Avoids f r) (hg : ∀ a, r = .ok a → Avoids f (g a)) :
    Avoids f (r >>= g) := by
  cases r with
  | ok a => exact hg a rfl
  | error e => exact hr.error

theorem Avoids.discard {r : Result α} (hr : Avoids f r) : Avoids f (discard r) := by
  cases r with
  | ok a => exact .ok _
  | error e => exact hr.error

def Sound (r : Result α) : Prop := ∀ f, r.Avoids f

theorem Sound.ok (a : α) : Sound (.ok a) := fun _ => .ok a

theorem Sound.reject (e : TensorError) : Sound (reject e : Result α) := fun _ => .reject e

end StridedTensor.Result
