import Mathlib.Algebra.Ring.Nat
import StridedTensor.Proofs.Result
import StridedTensor.Scalar.Arithmetic

/-!
# Promotion of integers

Integers of any type are computed with in signed 64-bit arithmetic. Converted back to their own type, sums, differences
and products are those of the type itself, because reducing to fewer bits commutes with all three. Quotients are as well,
with one exception: 64-bit unsigned integers are read as signed ones, and the quotient is that of the signed numbers
(`Scalar.promotes_integers`).
-/

namespace StridedTensor

/-! ### Words -/

private theorem ofInt_sub (w : Nat) (a b : Int) : BitVec.ofInt w (a - b) = BitVec.ofInt w a - BitVec.ofInt w b := by
  rw [Int.sub_eq_add_neg, BitVec.ofInt_add, BitVec.ofInt_neg, BitVec.sub_eq_add_neg]

theorem ofInt_bmod {w k : Nat} (h : w ≤ k) (z : Int) : BitVec.ofInt w (z.bmod (2 ^ k)) = BitVec.ofInt w z := by
  apply BitVec.eq_of_toInt_eq
  rw [BitVec.toInt_ofInt, BitVec.toInt_ofInt, Int.bmod_bmod_of_dvd (Nat.pow_dvd_pow 2 h)]

private theorem ofInt_tdiv_toInt {w : Nat} (x y : BitVec w) : BitVec.ofInt w (x.toInt.tdiv y.toInt) = x.sdiv y := by
  apply BitVec.eq_of_toInt_eq
  rw [BitVec.toInt_ofInt, BitVec.toInt_sdiv]

private theorem ofInt_tdiv_toNat {w : Nat} (x y : BitVec w) :
    BitVec.ofInt w ((x.toNat : Int).tdiv y.toNat) = x / y := by
  rw [← Int.ofNat_tdiv, BitVec.ofInt_natCast, BitVec.udiv_def]

/-! ### Signed and unsigned quotients -/

/-- The 64-bit words whose quotient is the same, signed or not. -/
def SameQuotient (x y : Nat) : Prop := x < 2 ^ 63 ∧ y < 2 ^ 63 ∨ y = 1 ∨ x = y ∨ 2 ^ 63 ≤ y ∧ x + y < 2 ^ 64

section

variable {x y : Nat} (hx : x < 2 ^ 64) (hy : y < 2 ^ 64) (hpos : 0 < y)
include hx hy

/-- Two large words: the larger one is the negative number nearer to zero. -/
private theorem sameQuotient_of_large_large (hxs : 2 ^ 63 ≤ x) (hys : 2 ^ 63 ≤ y) :
    (2 ^ 64 - x) % 2 ^ 64 / ((2 ^ 64 - y) % 2 ^ 64) = x / y ↔ SameQuotient x y := by
  rw [Nat.mod_eq_of_lt (by omega), Nat.mod_eq_of_lt (by omega)]
  rcases Nat.lt_trichotomy x y with hlt | rfl | hlt
  · have hzero : x / y = 0 := Nat.div_eq_of_lt hlt
    have hone : 0 < (2 ^ 64 - x) / (2 ^ 64 - y) := Nat.div_pos (by omega) (by omega)
    unfold SameQuotient
    omega
  · rw [Nat.div_self (by omega), Nat.div_self (by omega)]
    exact iff_of_true rfl (.inr (.inr (.inl rfl)))
  · have hone : 0 < x / y := Nat.div_pos (Nat.le_of_lt hlt) (by omega)
    have hzero : (2 ^ 64 - x) / (2 ^ 64 - y) = 0 := Nat.div_eq_of_lt (by omega)
    unfold SameQuotient
    omega

/-- A negative dividend: unless the divisor is one, one quotient is negative or zero and the other is positive. -/
private theorem sameQuotient_of_large_small (hpos : 0 < y) (hxs : 2 ^ 63 ≤ x) (hys : y < 2 ^ 63) :
    (2 ^ 64 - (2 ^ 64 - x) % 2 ^ 64 / y) % 2 ^ 64 = x / y ↔ SameQuotient x y := by
  rw [Nat.mod_eq_of_lt (a := 2 ^ 64 - x) (by omega)]
  by_cases hone : y = 1
  · subst hone
    rw [Nat.div_one, Nat.div_one, show 2 ^ 64 - (2 ^ 64 - x) = x by omega, Nat.mod_eq_of_lt hx]
    exact iff_of_true rfl (.inr (.inl rfl))
  · have hquotient : 0 < x / y := Nat.div_pos (by omega) hpos
    have hhalf : x / y ≤ x / 2 := Nat.div_le_div_left (by omega) (by omega)
    have hhalf' : (2 ^ 64 - x) / y ≤ (2 ^ 64 - x) / 2 := Nat.div_le_div_left (by omega) (by omega)
    refine iff_of_false ?_ (by unfold SameQuotient; omega)
    generalize (2 ^ 64 - x) / y = n at hhalf'
    rcases Nat.eq_zero_or_pos n with rfl | hn
    · exact Nat.ne_of_lt hquotient
    · rw [Nat.mod_eq_of_lt (by omega)]
      omega

/-- A negative divisor: the unsigned quotient is zero. -/
private theorem sameQuotient_of_small_large (hxs : x < 2 ^ 63) (hys : 2 ^ 63 ≤ y) :
    (2 ^ 64 - x / ((2 ^ 64 - y) % 2 ^ 64)) % 2 ^ 64 = x / y ↔ SameQuotient x y := by
  have hle : x / (2 ^ 64 - y) ≤ x := Nat.div_le_self _ _
  have hzero : x / (2 ^ 64 - y) = 0 ↔ x < 2 ^ 64 - y := Nat.div_eq_zero_iff_lt (by omega)
  have hsame : SameQuotient x y ↔ x < 2 ^ 64 - y := by
    unfold SameQuotient
    omega
  rw [Nat.mod_eq_of_lt (a := 2 ^ 64 - y) (by omega), Nat.div_eq_of_lt (show x < y by omega), hsame, ← hzero]
  generalize x / (2 ^ 64 - y) = n at hle
  omega

end

private theorem sdiv_eq_udiv_iff {x y : BitVec 64} (hy : y ≠ 0) : x.sdiv y = x / y ↔ SameQuotient x.toNat y.toNat := by
  have hxlt := x.isLt
  have hylt := y.isLt
  have hpos : 0 < y.toNat := Nat.pos_of_ne_zero fun h => hy (BitVec.eq_of_toNat_eq h)
  rw [← BitVec.toNat_inj, BitVec.sdiv_eq, BitVec.msb_eq_decide, BitVec.msb_eq_decide, BitVec.toNat_udiv]
  by_cases hxs : 2 ^ 63 ≤ x.toNat <;> by_cases hys : 2 ^ 63 ≤ y.toNat <;>
    simp only [hxs, hys, decide_true, decide_false, BitVec.udiv_eq, BitVec.toNat_neg, BitVec.toNat_udiv]
  · exact sameQuotient_of_large_large hxlt hylt hxs hys
  · exact sameQuotient_of_large_small hxlt hylt hpos hxs (Nat.lt_of_not_le hys)
  · exact sameQuotient_of_small_large hxlt hylt (Nat.lt_of_not_le hxs) hys
  · exact iff_of_true trivial (.inl ⟨Nat.lt_of_not_le hxs, Nat.lt_of_not_le hys⟩)

/-! ### Integer scalars -/

namespace Scalar

variable {t : ElementType}

/-- The quotient of two integers of the type, rounded toward zero and reduced to the width of the type. -/
def quotient (t : ElementType) (x y : BitVec t.width) : BitVec t.width := if t.isSigned then x.sdiv y else x / y

theorem width_le (t : ElementType) : t.width ≤ 64 := by cases t <;> decide

theorem isFloat_of_isInteger (ht : t.isInteger = true) : t.isFloat = false := by
  cases t <;> first | rfl | contradiction

/-- What is cast to an integer type is cast to 64 bits first, unless it has that type. -/
theorem cast_eq_ofInt (ht : t.isInteger = true) {s : Scalar} (hs : s.isFloat = false) (hne : s.type ≠ t) :
    s.cast t = ofInt t s.toInt64 := by
  unfold cast
  rw [if_neg hne]
  cases t with
  | u64 => exact congrArg (ofInt .u64) (if_neg (Bool.eq_false_iff.1 hs))
  | _ => first | rfl | contradiction

/-- An integer is read with its sign, also the 64-bit one that has none. -/
private theorem toInt64_eq (ht : t.isInteger = true) (x : BitVec t.width) :
    toInt64 ⟨t, x⟩ = if t.isSigned = true ∨ t = .u64 then x.toInt else x.toNat := by
  have hfloat : (⟨t, x⟩ : Scalar).isFloat = false := isFloat_of_isInteger ht
  rw [toInt64, hfloat, if_neg Bool.false_ne_true]
  show (if t.isSigned = true then x.toInt else (x.toNat : Int)).bmod (2 ^ 64) = _
  by_cases hs : t.isSigned = true
  · rw [if_pos hs, if_pos (.inl hs)]
    have hwidth : (2 : Int) ^ (t.width - 1) ≤ 2 ^ 63 := by cases t <;> decide
    have hlow := x.le_toInt
    have hhigh := x.toInt_lt
    exact Int.bmod_eq_of_le (by omega) (by omega)
  · rw [if_neg hs]
    by_cases h64 : t = .u64
    · subst h64
      exact (BitVec.toInt_eq_toNat_bmod x).symm
    · rw [if_neg (by simp [hs, h64])]
      have hwidth : 2 ^ t.width ≤ 2 ^ 32 := by
        cases t <;> first | decide | contradiction
      have hlt := x.isLt
      exact Int.bmod_eq_of_le (by omega) (by omega)

private theorem ofInt_toInt64 (ht : t.isInteger = true) (x : BitVec t.width) :
    BitVec.ofInt t.width (toInt64 ⟨t, x⟩) = x := by
  rw [toInt64_eq ht]
  split
  · exact BitVec.ofInt_toInt
  · rw [BitVec.ofInt_natCast, BitVec.ofNat_toNat, BitVec.setWidth_eq]

/-- The promoted integer keeps what the type can tell apart. -/
private theorem cast_ofInt_i64 (ht : t.isInteger = true) (z : Int) : (ofInt .i64 z).cast t = ofInt t z := by
  by_cases hne : ElementType.i64 = t
  · subst hne
    exact if_pos rfl
  · rw [cast_eq_ofInt ht rfl hne, toInt64_eq rfl, if_pos (.inl rfl)]
    show Scalar.mk t (BitVec.ofInt t.width (BitVec.ofInt 64 z).toInt) = Scalar.mk t (BitVec.ofInt t.width z)
    rw [BitVec.toInt_ofInt, ofInt_bmod (width_le t)]

/-! ### Arithmetic -/

variable (x y : BitVec t.width)

/-- Two integers of one type are promoted, and of the result the type keeps as many bits as it has. -/
private theorem promote_eq_ok (ht : t.isInteger = true) (float : Binary .double → Binary .double → Binary .double)
    (int : Int → Int → Int) : ∃ p, promote ⟨t, x⟩ ⟨t, y⟩ float int = .ok p ∧
      p.cast t = ⟨t, BitVec.ofInt t.width (int (toInt64 ⟨t, x⟩) (toInt64 ⟨t, y⟩))⟩ := by
  have hfloat (z : BitVec t.width) : (⟨t, z⟩ : Scalar).isFloat = false := isFloat_of_isInteger ht
  have hint (z : BitVec t.width) : (⟨t, z⟩ : Scalar).isInteger = true := ht
  refine ⟨_, ?_, cast_ofInt_i64 ht _⟩
  rw [promote, hfloat, hint, hint]
  rfl

theorem add_eq_ok (ht : t.isInteger = true) : ∃ p, add ⟨t, x⟩ ⟨t, y⟩ = .ok p ∧ p.cast t = ⟨t, x + y⟩ := by
  obtain ⟨p, hp, hcast⟩ := promote_eq_ok x y ht Binary.add (· + ·)
  rw [BitVec.ofInt_add, ofInt_toInt64 ht, ofInt_toInt64 ht] at hcast
  exact ⟨p, hp, hcast⟩

theorem sub_eq_ok (ht : t.isInteger = true) : ∃ p, sub ⟨t, x⟩ ⟨t, y⟩ = .ok p ∧ p.cast t = ⟨t, x - y⟩ := by
  obtain ⟨p, hp, hcast⟩ := promote_eq_ok x y ht Binary.sub (· - ·)
  rw [ofInt_sub, ofInt_toInt64 ht, ofInt_toInt64 ht] at hcast
  exact ⟨p, hp, hcast⟩

theorem mul_eq_ok (ht : t.isInteger = true) : ∃ p, mul ⟨t, x⟩ ⟨t, y⟩ = .ok p ∧ p.cast t = ⟨t, x * y⟩ := by
  obtain ⟨p, hp, hcast⟩ := promote_eq_ok x y ht Binary.mul (· * ·)
  rw [BitVec.ofInt_mul, ofInt_toInt64 ht, ofInt_toInt64 ht] at hcast
  exact ⟨p, hp, hcast⟩

private theorem toInt64_eq_zero (ht : t.isInteger = true) {y : BitVec t.width} : toInt64 ⟨t, y⟩ = 0 ↔ y = 0 := by
  constructor
  · intro h
    rw [← ofInt_toInt64 ht y, h]
    exact BitVec.ofInt_ofNat _ _
  · rintro rfl
    rw [toInt64_eq ht]
    split <;> simp

theorem div_eq (ht : t.isInteger = true) : div ⟨t, x⟩ ⟨t, y⟩ =
    if y = 0 then Result.reject .divisionByZero else promote ⟨t, x⟩ ⟨t, y⟩ Binary.div Int.tdiv := by
  have hfloat (z : BitVec t.width) : (⟨t, z⟩ : Scalar).isFloat = false := isFloat_of_isInteger ht
  have hint (z : BitVec t.width) : (⟨t, z⟩ : Scalar).isInteger = true := ht
  simp only [div, hfloat, hint, Bool.false_eq_true, if_false, Bool.false_or, Bool.and_self,
    Bool.and_true, beq_iff_eq, toInt64_eq_zero ht]

/-- The quotient is taken of what `toInt64` reads. -/
theorem div_eq_ok (ht : t.isInteger = true) (hy : y ≠ 0) : ∃ p, div ⟨t, x⟩ ⟨t, y⟩ = .ok p ∧
    p.cast t = ⟨t, if t.isSigned = true ∨ t = .u64 then x.sdiv y else x / y⟩ := by
  obtain ⟨p, hp, hcast⟩ := promote_eq_ok x y ht Binary.div Int.tdiv
  refine ⟨p, by rw [div_eq x y ht, if_neg hy, hp], ?_⟩
  rw [hcast, toInt64_eq ht, toInt64_eq ht]
  split
  · rw [ofInt_tdiv_toInt]
  · rw [ofInt_tdiv_toNat]

/-- Integers of one type are added, subtracted and multiplied as in the type itself. A quotient exists unless the divisor
is zero, and is that of the type, except that 64-bit unsigned integers are divided as if they were signed. -/
theorem promotes_integers (ht : t.isInteger = true) :
    (∃ p, add ⟨t, x⟩ ⟨t, y⟩ = .ok p ∧ p.cast t = ⟨t, x + y⟩) ∧
    (∃ p, sub ⟨t, x⟩ ⟨t, y⟩ = .ok p ∧ p.cast t = ⟨t, x - y⟩) ∧
    (∃ p, mul ⟨t, x⟩ ⟨t, y⟩ = .ok p ∧ p.cast t = ⟨t, x * y⟩) ∧
    (div ⟨t, x⟩ ⟨t, y⟩ = Result.reject .divisionByZero ↔ y = 0) ∧
    (y ≠ 0 → ∃ p, div ⟨t, x⟩ ⟨t, y⟩ = .ok p ∧ (t = .u64 → p.cast t = ⟨t, x.sdiv y⟩) ∧
      (p.cast t = ⟨t, quotient t x y⟩ ↔ (t = .u64 → SameQuotient x.toNat y.toNat))) := by
  refine ⟨add_eq_ok x y ht, sub_eq_ok x y ht, mul_eq_ok x y ht, ?_, fun hy => ?_⟩
  · by_cases hy : y = 0
    · exact iff_of_true (by rw [div_eq x y ht, if_pos hy]) hy
    · obtain ⟨p, hp, -⟩ := div_eq_ok x y ht hy
      exact iff_of_false (fun h => Result.reject_ne_ok _ _ (h.symm.trans hp)) hy
  · obtain ⟨p, hp, hcast⟩ := div_eq_ok x y ht hy
    refine ⟨p, hp, fun h64 => hcast.trans (by rw [if_pos (.inr h64)]), ?_⟩
    rw [hcast, quotient]
    by_cases h64 : t = .u64
    · subst h64
      rw [if_pos (.inr rfl), if_neg (show ¬ ElementType.u64.isSigned = true by decide)]
      have hiff := sdiv_eq_udiv_iff hy (x := x)
      exact ⟨fun h _ => hiff.1 (eq_of_heq (Scalar.mk.inj h).2), fun h => congrArg (Scalar.mk .u64) (hiff.2 (h rfl))⟩
    · simp [h64]

/-- The least integer divided by minus one wraps around to itself. -/
theorem least_promotes : ElementType.i64.isInteger = true ∧
    (∃ p, add ⟨.i64, .intMin 64⟩ ⟨.i64, -1#64⟩ = .ok p ∧ p.cast .i64 = ⟨.i64, .intMax 64⟩) ∧
    (∃ p, sub ⟨.i64, .intMin 64⟩ ⟨.i64, -1#64⟩ = .ok p ∧ p.cast .i64 = ⟨.i64, .intMin 64 + 1⟩) ∧
    (∃ p, mul ⟨.i64, .intMin 64⟩ ⟨.i64, -1#64⟩ = .ok p ∧ p.cast .i64 = ⟨.i64, .intMin 64⟩) ∧
    ∃ p, div ⟨.i64, .intMin 64⟩ ⟨.i64, -1#64⟩ = .ok p ∧ p.cast .i64 = ⟨.i64, .intMin 64⟩ := by
  obtain ⟨hadd, hsub, hmul, -, hdiv⟩ := promotes_integers (t := .i64) (.intMin 64) (-1#64) rfl
  have hne : (-1#64 : BitVec 64) ≠ 0 := by decide
  obtain ⟨p, hp, -, hcast⟩ := hdiv hne
  exact ⟨rfl, hadd, hsub, hmul, p, hp, hcast.2 nofun⟩

/-- Half of `2 ^ 63` is negative if that is read as a signed integer. -/
theorem largeDividend_promotes : ∃ p, div ⟨.u64, 0x8000000000000000#64⟩ ⟨.u64, 2#64⟩ = .ok p ∧
    p.cast .u64 = ⟨.u64, 0xc000000000000000#64⟩ ∧
    p.cast .u64 ≠ ⟨.u64, quotient .u64 0x8000000000000000#64 2#64⟩ := by
  have hne : (2#64 : BitVec 64) ≠ 0 := by decide
  obtain ⟨p, hp, hcast⟩ := div_eq_ok (t := .u64) 0x8000000000000000#64 2#64 rfl hne
  have hvalue : p.cast .u64 = ⟨.u64, 0xc000000000000000#64⟩ := hcast.trans (by decide)
  exact ⟨p, hp, hvalue, hvalue ▸ by decide⟩

end Scalar

end StridedTensor
