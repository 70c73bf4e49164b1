import Mathlib.Algebra.Ring.Nat
import Mathlib.Data.List.Forall2
import StridedTensor.Dims.Shape

/-!
# Row-major positions

The indices below given extents and the numbers below their product correspond: `position` counts the indices that
come before one in row-major order, `indexAt` finds the index with a given count (`position_indexAt`,
`indexAt_position`). `digits` is the same index with the dimensions listed from the last to the first, which is how
a walk over the elements carries it (`reverse_digits`). Column-major order counts along the first dimension first; with
the dimensions listed backwards it is row-major order (`columnPosition_reverse`).
-/

namespace StridedTensor.Shape

/-- The place of an index in row-major order. -/
def position : List Nat → List Nat → Nat
  | _ :: ns, i :: is => i * ns.prod + position ns is
  | _, _ => 0

/-- The place of an index in column-major order. -/
def columnPosition : List Nat → List Nat → Nat
  | n :: ns, i :: is => i + n * columnPosition ns is
  | _, _ => 0

def indexAt : List Nat → Nat → List Nat
  | [], _ => []
  | n :: ns, k => k / ns.prod % n :: indexAt ns k

/-- The index at place `k` for the extents of the dimensions from the last one to the first. -/
def digits : List Nat → Nat → List Nat
  | [], _ => []
  | n :: ns, k => k % n :: digits ns (k / n)

@[simp] theorem length_indexAt (ns : List Nat) (k : Nat) : (indexAt ns k).length = ns.length := by
  induction ns with
  | nil => rfl
  | cons n ns ih => simp [indexAt, ih]

@[simp] theorem length_digits (ns : List Nat) (k : Nat) : (digits ns k).length = ns.length := by
  induction ns generalizing k with
  | nil => rfl
  | cons n ns ih => simp [digits, ih]

theorem position_lt {ns index : List Nat} (h : List.Forall₂ (· < ·) index ns) : position ns index < ns.prod := by
  induction h with
  | nil => simp [position]
  | @cons i n is ns hi _ ih =>
    have : (i + 1) * ns.prod ≤ n * ns.prod := Nat.mul_le_mul_right _ hi
    rw [Nat.succ_mul] at this
    rw [position, List.prod_cons]
    omega

theorem indexAt_below {ns : List Nat} (h : 0 < ns.prod) (k : Nat) : List.Forall₂ (· < ·) (indexAt ns k) ns := by
  induction ns with
  | nil => exact .nil
  | cons n ns ih =>
    rw [List.prod_cons] at h
    exact .cons (Nat.mod_lt _ (Nat.pos_of_mul_pos_right h)) (ih (Nat.pos_of_mul_pos_left h))

theorem prod_pos_of_below {ns index : List Nat} (h : List.Forall₂ (· < ·) index ns) : 0 < ns.prod :=
  Nat.lt_of_le_of_lt (Nat.zero_le _) (position_lt h)

private theorem position_indexAt_mod (ns : List Nat) (k : Nat) : position ns (indexAt ns k) = k % ns.prod := by
  induction ns with
  | nil => simp [position, Nat.mod_one]
  | cons n ns ih =>
    rw [indexAt, position, ih, List.prod_cons, Nat.mul_comm n, Nat.mod_mul, Nat.mul_comm, Nat.add_comm]

theorem position_indexAt {ns : List Nat} {k : Nat} (h : k < ns.prod) : position ns (indexAt ns k) = k := by
  rw [position_indexAt_mod, Nat.mod_eq_of_lt h]

/-- Positions that differ by whole blocks have the same index within the block. -/
theorem indexAt_add_mul (ns : List Nat) (j k : Nat) : indexAt ns (j * ns.prod + k) = indexAt ns k := by
  induction ns generalizing j with
  | nil => rfl
  | cons n ns ih =>
    have e : j * (n * ns.prod) + k = j * n * ns.prod + k := by rw [Nat.mul_assoc]
    rw [indexAt, indexAt, List.prod_cons, e, ih (j * n)]
    congr 1
    rcases Nat.eq_zero_or_pos ns.prod with h | h
    · simp [h]
    · rw [Nat.mul_comm _ ns.prod, Nat.mul_add_div h, Nat.mul_comm j, Nat.mul_add_mod]

theorem indexAt_position {ns index : List Nat} (h : List.Forall₂ (· < ·) index ns) :
    indexAt ns (position ns index) = index := by
  induction h with
  | nil => rfl
  | @cons i n is ns hi ht ih =>
    have hp := position_lt ht
    rw [position, indexAt, indexAt_add_mul, ih]
    congr 1
    rw [Nat.mul_comm, Nat.mul_add_div (by omega), Nat.div_eq_of_lt hp, Nat.add_zero, Nat.mod_eq_of_lt hi]

/-! ### Digits -/

theorem digits_zero (ns : List Nat) : digits ns 0 = List.replicate ns.length 0 := by
  induction ns with
  | nil => rfl
  | cons n ns ih => simp [digits, ih, List.replicate_succ]

theorem digits_below {ns : List Nat} (h : 0 < ns.prod) (k : Nat) : List.Forall₂ (· < ·) (digits ns k) ns := by
  induction ns generalizing k with
  | nil => exact .nil
  | cons n ns ih =>
    rw [List.prod_cons] at h
    exact .cons (Nat.mod_lt _ (Nat.pos_of_mul_pos_right h)) (ih (Nat.pos_of_mul_pos_left h) _)

theorem zeros_below {ns : List Nat} (h : 0 < ns.prod) :
    List.Forall₂ (· < ·) (List.replicate ns.length 0) ns := by
  rw [← digits_zero]
  exact digits_below h 0

theorem last_below {ns : List Nat} (h : 0 < ns.prod) : List.Forall₂ (· < ·) (ns.map (· - 1)) ns := by
  induction ns with
  | nil => exact .nil
  | cons n ns ih =>
    rw [List.prod_cons] at h
    have hn : 0 < n := Nat.pos_of_mul_pos_right h
    exact .cons (Nat.sub_lt hn Nat.one_pos) (ih (Nat.pos_of_mul_pos_left h))

private theorem digits_append_singleton (ns : List Nat) (n k : Nat) :
    digits (ns ++ [n]) k = digits ns k ++ [k / ns.prod % n] := by
  induction ns generalizing k with
  | nil => simp [digits]
  | cons m ns ih => simp [digits, ih, Nat.div_div_eq_div_mul]

theorem reverse_digits (ns : List Nat) (k : Nat) : (digits ns.reverse k).reverse = indexAt ns k := by
  induction ns with
  | nil => rfl
  | cons n ns ih =>
    rw [List.reverse_cons, digits_append_singleton, List.reverse_append, ih, List.prod_reverse]
    rfl

/-! ### Column-major order -/

@[simp] theorem columnPosition_nil (index : List Nat) : columnPosition [] index = 0 := rfl

theorem columnPosition_replicate_zero (ns : List Nat) (k : Nat) : columnPosition ns (List.replicate k 0) = 0 := by
  induction ns generalizing k with
  | nil => rfl
  | cons n ns ih =>
    cases k with
    | zero => rfl
    | succ k => simp [List.replicate_succ, columnPosition, ih]

private theorem columnPosition_append_singleton {ns index : List Nat} (h : index.length = ns.length) (n i : Nat) :
    columnPosition (ns ++ [n]) (index ++ [i]) = columnPosition ns index + ns.prod * i := by
  induction ns generalizing index with
  | nil =>
    obtain rfl : index = [] := by simpa using h
    simp [columnPosition]
  | cons m ns ih =>
    cases index with
    | nil => simp at h
    | cons j index =>
      simp only [List.cons_append, columnPosition, List.prod_cons]
      rw [ih (by simpa using h), Nat.mul_add, ← Nat.mul_assoc, ← Nat.add_assoc]

theorem columnPosition_reverse {ns index : List Nat} (h : index.length = ns.length) :
    columnPosition ns.reverse index.reverse = position ns index := by
  induction ns generalizing index with
  | nil => rfl
  | cons n ns ih =>
    cases index with
    | nil => simp at h
    | cons i index =>
      have hlen : index.length = ns.length := by simpa using h
      rw [List.reverse_cons, List.reverse_cons, columnPosition_append_singleton (by simpa using hlen), ih hlen,
        List.prod_reverse, position, Nat.mul_comm, Nat.add_comm]

end StridedTensor.Shape
