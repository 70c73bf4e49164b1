import Mathlib.Algebra.Ring.Nat
import Mathlib.Data.List.Forall2
import StridedTensor.Dims.Shape

/-!
# Checked sums and products

A sum or product computed step by step in 64 bits agrees with the one computed in the natural numbers. A sum has
a result exactly when the last partial sum is in range (`foldlM_eq_some`), since the partial sums grow; a product
of positive factors likewise (`product?_of_pos`), but a factor zero may follow a partial product that is too large.
-/

namespace StridedTensor.Word

variable {α : Type}

/-- A fold whose steps each add `w x`, in 64 bits, to what was summed so far. -/
theorem foldlM_eq_some {step : Nat → α → Option Nat} {w : α → Nat}
    (hstep : ∀ sum x d, step sum x = some d ↔ sum + w x < limit ∧ d = sum + w x) (xs : List α) {a d : Nat}
    (ha : a < limit) :
    xs.foldlM step a = some d ↔ a + (xs.map w).sum < limit ∧ d = a + (xs.map w).sum := by
  induction xs generalizing a with
  | nil =>
    simp only [List.foldlM_nil, List.map_nil, List.sum_nil, Nat.add_zero, Option.pure_def, Option.some.injEq]
    exact ⟨fun h => ⟨ha, h.symm⟩, fun h => h.2.symm⟩
  | cons x xs ih =>
    rw [List.foldlM_cons, List.map_cons, List.sum_cons, ← Nat.add_assoc, Option.bind_eq_bind, Option.bind_eq_some_iff]
    constructor
    · rintro ⟨b, hb, h⟩
      obtain ⟨hlt, rfl⟩ := (hstep a x b).1 hb
      exact (ih hlt).1 h
    · intro h
      have hlt : a + w x < limit := by omega
      exact ⟨a + w x, (hstep a x _).2 ⟨hlt, rfl⟩, (ih hlt).2 h⟩

theorem mul?_add?_eq_some {m n sum d : Nat} :
    ((mul? m n).bind fun p => add? sum p) = some d ↔ sum + m * n < limit ∧ d = sum + m * n := by
  rw [Option.bind_eq_some_iff]
  constructor
  · rintro ⟨p, hp, h⟩
    obtain ⟨-, rfl⟩ := mul?_eq_some.1 hp
    exact add?_eq_some.1 h
  · intro h
    exact ⟨m * n, mul?_eq_some.2 ⟨by omega, rfl⟩, add?_eq_some.2 h⟩

/-! ### Products -/

private theorem foldlM_mul?_eq {xs : List Nat} {a n : Nat} (h : xs.foldlM mul? a = some n) : n = a * xs.prod := by
  induction xs generalizing a with
  | nil => simpa using h.symm
  | cons x xs ih =>
    rw [List.foldlM_cons, Option.bind_eq_bind, Option.bind_eq_some_iff] at h
    obtain ⟨b, hb, h⟩ := h
    obtain ⟨-, rfl⟩ := mul?_eq_some.1 hb
    rw [ih h, List.prod_cons, Nat.mul_assoc]

theorem product?_eq {xs : List Nat} {n : Nat} (h : product? xs = some n) : n = xs.prod := by
  simpa using foldlM_mul?_eq h

private theorem foldlM_mul?_of_pos {xs : List Nat} {a : Nat} (h0 : 0 < a * xs.prod) (h : a * xs.prod < limit) :
    xs.foldlM mul? a = some (a * xs.prod) := by
  induction xs generalizing a with
  | nil => simp
  | cons x xs ih =>
    rw [List.prod_cons, ← Nat.mul_assoc] at h0 h ⊢
    -- the partial products of positive factors only grow
    have hle : a * x ≤ a * x * xs.prod := Nat.le_mul_of_pos_right _ (Nat.pos_of_mul_pos_left h0)
    have hb : mul? a x = some (a * x) := mul?_eq_some.2 ⟨by omega, rfl⟩
    rw [List.foldlM_cons, hb]
    exact ih h0 h

/-- The product of positive factors has a result if it is in range itself. -/
theorem product?_of_pos {xs : List Nat} (h0 : 0 < xs.prod) (h : xs.prod < limit) : product? xs = some xs.prod := by
  simpa [product?] using foldlM_mul?_of_pos (a := 1) (by simpa using h0) (by simpa using h)

private theorem foldlM_mul?_lt {xs : List Nat} {a n : Nat} (ha : a < limit) (h : xs.foldlM mul? a = some n) :
    n < limit := by
  induction xs generalizing a with
  | nil =>
    obtain rfl : a = n := by simpa using h
    exact ha
  | cons x xs ih =>
    rw [List.foldlM_cons, Option.bind_eq_bind, Option.bind_eq_some_iff] at h
    obtain ⟨b, hb, h⟩ := h
    obtain ⟨hlt, rfl⟩ := mul?_eq_some.1 hb
    exact ih hlt h

theorem product?_lt {xs : List Nat} {n : Nat} (h : product? xs = some n) : n < limit :=
  foldlM_mul?_lt (by decide) h

private theorem foldlM_mul?_of_le {xs ys : List Nat} (h : List.Forall₂ (· ≤ ·) ys xs) {a b n : Nat} (hab : b ≤ a)
    (hx : xs.foldlM mul? a = some n) : ∃ m, ys.foldlM mul? b = some m := by
  induction h generalizing a b with
  | nil => exact ⟨b, rfl⟩
  | @cons y x ys xs hyx _ ih =>
    rw [List.foldlM_cons, Option.bind_eq_bind, Option.bind_eq_some_iff] at hx
    obtain ⟨p, hp, hx⟩ := hx
    obtain ⟨hlt, rfl⟩ := mul?_eq_some.1 hp
    have hle : b * y ≤ a * x := Nat.mul_le_mul hab hyx
    have hmul : mul? b y = some (b * y) := mul?_eq_some.2 ⟨by omega, rfl⟩
    rw [List.foldlM_cons, hmul]
    exact ih hle hx

/-- If the product of some factors stays in range, then so does that of smaller factors. -/
theorem product?_of_le {xs ys : List Nat} (h : List.Forall₂ (· ≤ ·) ys xs) {n : Nat} (hx : product? xs = some n) :
    ∃ m, product? ys = some m :=
  foldlM_mul?_of_le h (Nat.le_refl 1) hx

end StridedTensor.Word
