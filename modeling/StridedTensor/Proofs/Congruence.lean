import Mathlib.Data.Int.ModEq
import StridedTensor.Proofs.Promotion

/-!
# Integers modulo powers of two

A value of an integer type, or a boolean, stands for an integer in the range of its type, and no other integer in that
range is congruent to it modulo the number of values (`ElementType.eq_of_modEq`). A cast looks for the integer of the
target that is congruent to the value (`Scalar.cast_eq_ofInt_toInt`). What it does to signs and widths, and when it can
be undone, follows from that alone (`Scalar.cast_congruent`).
-/

namespace StridedTensor

/-! ### Ranges -/

namespace ElementType

variable {t : ElementType} {y z : Int}

def least (t : ElementType) : Int := if t.isSigned then -2 ^ (t.width - 1) else 0

def greatest (t : ElementType) : Int := (if t.isSigned then 2 ^ (t.width - 1) else 2 ^ t.width) - 1

/-- The integer is one of those that the values of the type stand for. -/
def Holds (t : ElementType) (z : Int) : Prop := t.least ≤ z ∧ z ≤ t.greatest

instance : Decidable (t.Holds z) := inferInstanceAs (Decidable (_ ∧ _))

private theorem greatest_eq (t : ElementType) : t.greatest = t.least + 2 ^ t.width - 1 := by
  cases t <;> rfl

private theorem isFloat_or_isInteger_or_bool (t : ElementType) : t.isFloat = true ∨ t.isInteger = true ∨ t = .bool := by
  cases t <;> decide

/-- The range is too narrow for two different integers that are congruent. -/
theorem eq_of_modEq (hy : t.Holds y) (hz : t.Holds z) (h : y ≡ z [ZMOD 2 ^ t.width]) : y = z := by
  have hrange := t.greatest_eq
  obtain ⟨hlow, hhigh⟩ := hy
  obtain ⟨hlow', hhigh'⟩ := hz
  have hnear : |z - y| < 2 ^ t.width := abs_lt.2 ⟨by omega, by omega⟩
  have hzero : z - y = 0 := Int.eq_zero_of_abs_lt_dvd h.dvd hnear
  omega

end ElementType

namespace Scalar

open ElementType

variable {s v : Scalar} {t : ElementType} {z : Int}

theorem holds_toInt (s : Scalar) : s.type.Holds s.toInt := by
  unfold toInt Holds least greatest
  cases s.type.isSigned with
  | true =>
    have hlow := s.bits.le_toInt
    have hhigh := s.bits.toInt_lt
    simp only [if_true]
    omega
  | false =>
    have hlt : (s.bits.toNat : Int) < 2 ^ s.type.width := by exact_mod_cast s.bits.isLt
    simp only [Bool.false_eq_true, if_false]
    omega

theorem toInt_ofInt (t : ElementType) (z : Int) : (ofInt t z).toInt ≡ z [ZMOD 2 ^ t.width] := by
  have hmodulus : ((2 ^ t.width : Nat) : Int) = 2 ^ t.width := by push_cast; rfl
  show (if t.isSigned then (BitVec.ofInt t.width z).toInt else ((BitVec.ofInt t.width z).toNat : Int)) ≡ z
    [ZMOD 2 ^ t.width]
  split
  · rw [BitVec.toInt_ofInt, Int.ModEq, ← hmodulus, Int.bmod_emod]
  · have hpos : (0 : Int) < 2 ^ t.width := Int.pow_pos (by decide)
    rw [BitVec.toNat_ofInt, hmodulus, Int.toNat_of_nonneg (Int.emod_nonneg z hpos.ne')]
    exact Int.mod_modEq z _

/-- Values of one type are told apart by the integers that they stand for. -/
private theorem eq_of_toInt_eq (htype : v.type = s.type) (h : v.toInt = s.toInt) : v = s := by
  obtain ⟨t, x⟩ := v
  obtain ⟨_, y⟩ := s
  subst htype
  unfold toInt at h
  congr 1
  split at h
  · exact BitVec.eq_of_toInt_eq h
  · exact BitVec.eq_of_toNat_eq (by exact_mod_cast h)

private theorem eq_ofInt (htype : v.type = t) (h : v.toInt ≡ z [ZMOD 2 ^ t.width]) : v = ofInt t z := by
  subst htype
  exact eq_of_toInt_eq rfl (eq_of_modEq v.holds_toInt (ofInt v.type z).holds_toInt (h.trans (toInt_ofInt _ z).symm))

private theorem ofInt_toInt (s : Scalar) : ofInt s.type s.toInt = s := (eq_ofInt rfl rfl).symm

theorem toInt_ofInt_of_holds (h : t.Holds z) : (ofInt t z).toInt = z :=
  eq_of_modEq (ofInt t z).holds_toInt h (toInt_ofInt t z)

/-! ### Casts of integers -/

section

variable (hs : s.isFloat = false)
include hs

/-- The 64 bits on the way lose nothing that the target can tell apart. -/
theorem cast_eq_ofInt_toInt (ht : t.isInteger = true) : s.cast t = ofInt t s.toInt := by
  by_cases hne : s.type = t
  · subst hne
    rw [ofInt_toInt]
    exact if_pos rfl
  · rw [cast_eq_ofInt ht hs hne, toInt64, hs, if_neg Bool.false_ne_true]
    exact congrArg (Scalar.mk t) (ofInt_bmod (width_le t) s.toInt)

theorem cast_bool : s.cast .bool = ofBool (s.toInt != 0) := by
  by_cases htype : s.type = .bool
  · obtain ⟨t, x⟩ := s
    subst htype
    revert x
    decide
  · show (if s.type = .bool then s else ofBool s.toBool) = _
    rw [if_neg htype, toBool, hs, if_neg Bool.false_ne_true]

/-- Integers are cast by what they stand for, whatever their types. -/
theorem cast_eq_of_toInt_eq (hv : v.isFloat = false) (ht : t.isInteger = true ∨ t = .bool) (h : v.toInt = s.toInt) :
    v.cast t = s.cast t := by
  rcases ht with ht | rfl
  · rw [cast_eq_ofInt_toInt hs ht, cast_eq_ofInt_toInt hv ht, h]
  · rw [cast_bool hs, cast_bool hv, h]

/-- An integer or a boolean is cast to the one integer of the type that is congruent to it modulo the number of values.
So a cast on the way to a type that is not wider makes no difference, a cast to a type that holds the integer can be
undone, and a cast to a boolean tells whether the integer is zero. -/
theorem cast_congruent :
    (∀ {t}, t.isInteger = true → (s.cast t).type = t ∧ (s.cast t).toInt ≡ s.toInt [ZMOD 2 ^ t.width] ∧
      ∀ v : Scalar, v.type = t → v.toInt ≡ s.toInt [ZMOD 2 ^ t.width] → v = s.cast t) ∧
    (∀ {a b}, a.isInteger = true → b.isInteger = true → b.width ≤ a.width → (s.cast a).cast b = s.cast b) ∧
    (∀ {t}, t.isInteger = true → t.Holds s.toInt → (s.cast t).toInt = s.toInt ∧ (s.cast t).cast s.type = s) ∧
    s.cast .bool = ofBool (s.toInt != 0) := by
  refine ⟨fun {t} ht => ?_, fun {a b} ha hb hwidth => ?_, fun {t} ht hholds => ?_, cast_bool hs⟩
  · rw [cast_eq_ofInt_toInt hs ht]
    exact ⟨rfl, toInt_ofInt t _, fun v htype h => eq_ofInt htype h⟩
  · have hcast : (s.cast a).isFloat = false := by
      rw [cast_eq_ofInt_toInt hs ha]
      exact isFloat_of_isInteger ha
    rw [cast_eq_ofInt_toInt hcast hb, cast_eq_ofInt_toInt hs ha, cast_eq_ofInt_toInt hs hb]
    -- what is congruent modulo the wider power is congruent modulo the narrower one
    refine eq_ofInt rfl ((toInt_ofInt b _).trans ?_)
    exact (toInt_ofInt a s.toInt).of_dvd (pow_dvd_pow 2 hwidth)
  · have hcast := cast_eq_ofInt_toInt hs ht
    have hvalue : (s.cast t).toInt = s.toInt := by rw [hcast, toInt_ofInt_of_holds hholds]
    have hfloat : (s.cast t).isFloat = false := by
      rw [hcast]
      exact isFloat_of_isInteger ht
    refine ⟨hvalue, ?_⟩
    have htype := s.type.isFloat_or_isInteger_or_bool.resolve_left (by simpa [isFloat] using hs)
    rw [cast_eq_of_toInt_eq hs hfloat htype hvalue]
    exact if_pos rfl

end

theorem cast_congruent_i16 :
    (ofInt .i16 (-300)).isFloat = false ∧ ((ofInt .i16 (-300)).cast .u8).toInt ≡ -300 [ZMOD 2 ^ 8] ∧
      ((ofInt .i16 (-300)).cast .u32).cast .u8 = (ofInt .i16 (-300)).cast .u8 ∧
      ElementType.i64.Holds (-300) ∧ ((ofInt .i16 (-300)).cast .i64).cast .i16 = ofInt .i16 (-300) ∧
      (ofInt .u64 (2 ^ 63)).isFloat = false ∧ (ofInt .u64 (2 ^ 63)).cast .bool = ofBool true := by
  obtain ⟨hcongruent, htwice, hback, -⟩ := cast_congruent (s := ofInt .i16 (-300)) rfl
  obtain ⟨-, -, -, hbool⟩ := cast_congruent (s := ofInt .u64 (2 ^ 63)) rfl
  have hvalue : (ofInt .i16 (-300)).toInt = -300 := by decide
  refine ⟨rfl, ?_, htwice rfl rfl (by decide), by decide, (hback rfl (by decide)).2, rfl, hbool.trans (by decide)⟩
  rw [← hvalue]
  exact (hcongruent rfl).2.1

end Scalar

end StridedTensor
