import Mathlib.Algebra.Order.Field.Power
import Mathlib.Data.Rat.Floor
import StridedTensor.Proofs.Casting
import StridedTensor.Proofs.Congruence
import StridedTensor.Proofs.Storing

/-!
# Floats as integers

A float that is converted to an integer loses its fraction and is clamped to a range (`Binary.toInt_eq_saturate`), in
the order of the numbers (`Binary.saturate_le`). A cast clamps to the range of a 64-bit type, whatever the target, and
reduces the result to the target (`Scalar.cast_ofBinary`). So it clamps to the range of the target if that has 64 bits,
and otherwise only if reducing does not matter (`Context.stores_truncated`).
-/

namespace StridedTensor

/-! ### Truncation -/

/-- The integer next to the number on the side of zero. -/
def towardZero (q : ℚ) : Int := if 0 ≤ q then ⌊q⌋ else ⌈q⌉

private theorem towardZero_neg (q : ℚ) : towardZero (-q) = -towardZero q := by
  unfold towardZero
  rcases lt_trichotomy q 0 with h | rfl | h
  · rw [if_pos (by linarith), if_neg (by linarith), Int.floor_neg]
  · simp
  · rw [if_neg (by linarith), if_pos h.le, Int.ceil_neg]

private theorem towardZero_le {q r : ℚ} (h : q ≤ r) : towardZero q ≤ towardZero r := by
  unfold towardZero
  split
  · rename_i hq
    rw [if_pos (hq.trans h)]
    exact Int.floor_le_floor h
  · rename_i hq
    split
    · rename_i hr
      calc ⌈q⌉
        _ ≤ 0 := Int.ceil_le.2 (by exact_mod_cast (not_le.1 hq).le)
        _ ≤ ⌊r⌋ := Int.floor_nonneg.2 hr
    · exact Int.ceil_le_ceil h

private theorem towardZero_natCast_div (m d : Nat) : towardZero (m / d : ℚ) = (m / d : Nat) := by
  unfold towardZero
  rw [if_pos (by positivity), Rat.floor_natCast_div_natCast, Int.natCast_ediv]

private theorem shiftLeft_mul_zpow (m : Nat) {e k : Int} (h : k ≤ e) :
    ((m <<< (e - k).toNat : Nat) : ℚ) * 2 ^ k = m * 2 ^ e := by
  rw [Nat.shiftLeft_eq, Nat.cast_mul, Nat.cast_pow, Nat.cast_ofNat, mul_assoc, ← zpow_natCast,
    ← zpow_add₀ two_ne_zero, Int.toNat_of_nonneg (by omega), Int.sub_add_cancel]

namespace Binary

open Format

variable {f g : Format} {x y : Binary f} {lo hi lo' hi' : Int}

/-! ### The numbers of a format -/

/-- The number that a finite value stands for. -/
def Value.number : Value → ℚ
  | .finite s m e => signed s m * 2 ^ e
  | _ => 0

def number (x : Binary f) : ℚ := x.value.number

/-- The number without its fraction, clamped to a range; a NaN counts as zero. -/
def saturate (lo hi : Int) (x : Binary f) : Int :=
  match x.value with
  | .nan => 0
  | .infinity s => if s then lo else hi
  | .finite .. => max lo (min hi (towardZero x.number))

private theorem saturate_of_isNaN (h : x.isNaN = true) : x.saturate lo hi = 0 := by
  rw [saturate, value_of_isNaN h]

private theorem saturate_of_infinite (h : x.magnitude = f.infinityBits) :
    x.saturate lo hi = if x.isNegative then lo else hi := by
  rw [saturate, value_of_infinite h]

private theorem saturate_of_finite (h : x.magnitude < f.infinityBits) :
    x.saturate lo hi = max lo (min hi (towardZero x.number)) := by
  rw [saturate, value_of_finite h]

private theorem signed_mul (s : Bool) (m : Nat) (q : ℚ) : (signed s m : ℚ) * q = if s then -(m * q) else m * q := by
  cases s <;> simp [signed]

/-- Every finite number is a whole multiple of the least positive one. -/
private theorem number_eq_units (h : x.magnitude < f.infinityBits) :
    x.number = signed x.isNegative (f.units x.magnitude) * 2 ^ f.leastExponent := by
  have hunits := shiftLeft_mul_zpow (unpack f x.magnitude).1 (f.leastExponent_le_unpack x.magnitude)
  rw [number, value_of_finite h, Value.number, signed_mul, signed_mul, units, hunits]

/-! ### Conversion to an integer -/

private theorem towardZero_signed (s : Bool) (m : Nat) (e : Int) :
    towardZero (signed s m * 2 ^ e) = signed s ((m <<< e.toNat) >>> (-e).toNat) := by
  have hpos : towardZero (m * 2 ^ e) = ((m <<< e.toNat) >>> (-e).toNat : Nat) := by
    have hquotient : (m * 2 ^ e : ℚ) = (m <<< e.toNat : Nat) / (2 ^ (-e).toNat : Nat) := by
      rw [Nat.shiftLeft_eq]
      push_cast
      rw [mul_div_assoc, ← zpow_natCast, ← zpow_natCast, ← zpow_sub₀ two_ne_zero]
      congr 2
      omega
    rw [hquotient, towardZero_natCast_div, Nat.shiftRight_eq_div_pow]
  rw [signed_mul]
  cases s with
  | true => exact (towardZero_neg _).trans (congrArg Neg.neg hpos)
  | false => exact hpos

theorem toInt_eq_saturate (lo hi : Int) (x : Binary f) : x.toInt lo hi = x.saturate lo hi := by
  unfold toInt saturate number
  cases x.value with
  | nan | infinity => rfl
  | finite s m e => exact congrArg (fun z => max lo (min hi z)) (towardZero_signed s m e).symm

/-! ### Order -/

private theorem saturate_mem (h : lo ≤ hi) (hx : x.isNaN = false) : lo ≤ x.saturate lo hi ∧ x.saturate lo hi ≤ hi := by
  rcases Nat.lt_or_eq_of_le (magnitude_le x hx) with hfin | hinf
  · rw [saturate_of_finite hfin]
    omega
  · rw [saturate_of_infinite hinf]
    split <;> omega

private theorem number_le_number (hx : x.magnitude < f.infinityBits) (hy : y.magnitude < f.infinityBits)
    (h : x.rank ≤ y.rank) :
    x.number ≤ y.number := by
  have hmono := f.units_strictMono.monotone
  have hunits : signed x.isNegative (f.units x.magnitude) ≤ signed y.isNegative (f.units y.magnitude) := by
    unfold rank at h
    unfold signed
    cases hsx : x.isNegative <;> cases hsy : y.isNegative <;>
      simp only [hsx, hsy, Bool.false_eq_true, if_false, if_true] at h ⊢
    · have := hmono (show x.magnitude ≤ y.magnitude by omega)
      omega
    · -- both are zero
      have hx0 : x.magnitude = 0 := by omega
      have hy0 : y.magnitude = 0 := by omega
      rw [hx0, hy0, units_zero]
      decide
    · omega
    · have := hmono (show y.magnitude ≤ x.magnitude by omega)
      omega
  rw [number_eq_units hx, number_eq_units hy]
  exact mul_le_mul_of_nonneg_right (by exact_mod_cast hunits) (by positivity)

/-- Clamped integers are in the order of the numbers. -/
theorem saturate_le (hf : 0 < f.infinityBits) (hle : lo ≤ hi) (hx : x.isNaN = false) (hy : y.isNaN = false)
    (h : y.lt x = false) : x.saturate lo hi ≤ y.saturate lo hi := by
  have hrank : x.rank ≤ y.rank := by simpa [lt, hx, hy] using h
  have hxle := magnitude_le x hx
  have hxmem := saturate_mem hle hx
  have hymem := saturate_mem hle hy
  rcases Nat.lt_or_eq_of_le (magnitude_le y hy) with hyfin | hyinf
  · rcases Nat.lt_or_eq_of_le hxle with hxfin | hxinf
    · have := towardZero_le (number_le_number hxfin hyfin hrank)
      rw [saturate_of_finite hxfin, saturate_of_finite hyfin]
      omega
    · -- plus infinity is above the finite numbers
      cases hsx : x.isNegative with
      | true =>
        rw [saturate_of_infinite hxinf, hsx]
        exact hymem.1
      | false =>
        cases hsy : y.isNegative <;>
          simp only [rank, hsx, hsy, Bool.false_eq_true, if_false, if_true] at hrank <;> omega
  · cases hsy : y.isNegative with
    | false =>
      rw [saturate_of_infinite hyinf, hsy]
      exact hxmem.2
    | true =>
      -- only minus infinity is not above minus infinity
      obtain ⟨hsx, hxinf⟩ : x.isNegative = true ∧ x.magnitude = f.infinityBits := by
        cases hsx : x.isNegative <;> simp only [rank, hsx, hsy, Bool.false_eq_true, if_false, if_true] at hrank
        · omega
        · exact ⟨rfl, by omega⟩
      rw [saturate_of_infinite hyinf, saturate_of_infinite hxinf, hsx, hsy]

/-- Clamping to a range is clamping to a wider one first. -/
private theorem saturate_eq_clamp (hlo : lo' ≤ lo) (hzero : lo ≤ 0 ∧ 0 ≤ hi) (hhi : hi ≤ hi') (x : Binary f) :
    x.saturate lo hi = max lo (min hi (x.saturate lo' hi')) := by
  unfold saturate
  split
  · omega
  · split <;> omega
  · omega

/-! ### Formats that hold the number -/

private theorem saturate_convert (h : Embeds f g) (lo hi : Int) (x : Binary f) :
    (x.convert g).saturate lo hi = x.saturate lo hi := by
  cases hx : x.isNaN with
  | true => rw [saturate_of_isNaN hx, saturate_of_isNaN ((isNaN_convert h x).trans hx)]
  | false =>
    obtain ⟨b, hb⟩ := exists_corresponds h (magnitude_le x hx)
    have hmagnitude := hb.magnitude_convert
    have hsign := hb.isNegative_convert
    cases hb with
    | infinite ha hb =>
      rw [saturate_of_infinite ha, saturate_of_infinite (hmagnitude.trans hb), hsign]
    | finite ha hb hunits =>
      have hfin : (x.convert g).magnitude < g.infinityBits := hmagnitude.symm ▸ hb
      have hnumber : (x.convert g).number = x.number := by
        have hleast := h.leastExponent_le
        rw [show (g.leastExponent - f.leastExponent).toNat = 0 by omega, Nat.shiftLeft_zero] at hunits
        rw [number_eq_units hfin, number_eq_units ha, hsign, hmagnitude, ← hunits, signed_mul, signed_mul,
          shiftLeft_mul_zpow _ hleast]
      rw [saturate_of_finite ha, saturate_of_finite hfin, hnumber]

end Binary

/-! ### Casts -/

namespace ElementType

variable {t : ElementType} {f : Format} {x y : Binary f}

/-- The integer in the range of the type that is nearest to the truncated number. -/
def clamp (t : ElementType) (x : Binary f) : Int := x.saturate t.least t.greatest

/-- The 64-bit integers that a float becomes on its way to an integer type. -/
def carrier (t : ElementType) : ElementType := if t = .u64 then .u64 else .i64

private theorem carrier_of_width (ht : t.isInteger = true) (h : t.width = 64) : t.carrier = t := by
  cases t <;> first | rfl | contradiction

private theorem range_of_isInteger (ht : t.isInteger = true) : t.least ≤ 0 ∧ 0 ≤ t.greatest := by
  revert ht
  cases t <;> decide

private theorem range_le_carrier (ht : t.isInteger = true) :
    t.carrier.least ≤ t.least ∧ t.greatest ≤ t.carrier.greatest := by
  revert ht
  cases t <;> decide

section

variable (ht : t.isInteger = true)
include ht

private theorem holds_clamp (x : Binary f) : t.Holds (t.clamp x) := by
  have hrange := range_of_isInteger ht
  cases hx : x.isNaN with
  | true => rwa [clamp, Binary.saturate_of_isNaN hx]
  | false => exact Binary.saturate_mem (hrange.1.trans hrange.2) hx

theorem clamp_le (hf : 0 < f.infinityBits) (hx : x.isNaN = false) (hy : y.isNaN = false) (h : y.lt x = false) :
    t.clamp x ≤ t.clamp y := by
  have hrange := range_of_isInteger ht
  exact Binary.saturate_le hf (hrange.1.trans hrange.2) hx hy h

private theorem clamp_eq (x : Binary f) : t.clamp x = max t.least (min t.greatest (t.carrier.clamp x)) := by
  have hcarrier := range_le_carrier ht
  exact Binary.saturate_eq_clamp hcarrier.1 (range_of_isInteger ht) hcarrier.2 x

/-- Within the range of the type the wider range makes no difference. -/
private theorem clamp_of_holds (h : t.Holds (t.carrier.clamp x)) : t.clamp x = t.carrier.clamp x := by
  obtain ⟨hlow, hhigh⟩ := h
  rw [clamp_eq ht, min_eq_right hhigh, max_eq_right hlow]

end

end ElementType

namespace FloatType

variable (t : FloatType)

private theorem infinityBits_pos : 0 < t.format.infinityBits := by
  cases t <;> decide

/-- Double precision holds the numbers of all types. -/
private theorem embeds_double {t : FloatType} (ht : t ≠ .f64) : Format.Embeds t.format .double := by
  cases t with
  | f16 => exact Format.short_half.embeds_double
  | bf16 => exact Format.short_bfloat.embeds_double
  | f32 => exact Format.single_embeds_double
  | f64 => contradiction

end FloatType

namespace Scalar

variable {t : FloatType} {target : ElementType}

private theorem isFloat_ofBinary (x : Binary t.format) : (ofBinary t x).isFloat = true := by
  cases t <;> rfl

private theorem toDouble_ofBinary (ht : t ≠ .f64) (x : Binary t.format) :
    (ofBinary t x).toDouble = x.convert .double := by
  conv_rhs => rw [← pattern_ofBinary x]
  cases t <;> first | rfl | contradiction

private theorem saturate_toDouble (lo hi : Int) (x : Binary t.format) :
    (ofBinary t x).toDouble.saturate lo hi = x.saturate lo hi := by
  by_cases ht : t = .f64
  · subst ht
    exact congrArg (Binary.saturate lo hi) (pattern_ofBinary (t := .f64) x)
  · rw [toDouble_ofBinary ht, Binary.saturate_convert (FloatType.embeds_double ht)]

section

variable (ht : target.isInteger = true) (x : Binary t.format)
include ht

/-- A float is truncated and clamped to 64 bits, and reduced to the target afterwards. -/
theorem cast_ofBinary : (ofBinary t x).cast target = ofInt target (target.carrier.clamp x) := by
  have hne : (ofBinary t x).type ≠ target := by
    rintro rfl
    exact Bool.noConfusion ((isFloat_of_isInteger ht).symm.trans (isFloat_ofBinary x))
  have hdouble (lo hi : Int) : (ofBinary t x).toDouble.toInt lo hi = x.saturate lo hi := by
    rw [Binary.toInt_eq_saturate, saturate_toDouble]
  have hsigned : (ofBinary t x).toInt64 = ElementType.i64.clamp x := by
    rw [toInt64, if_pos (isFloat_ofBinary x), hdouble]
    rfl
  unfold cast
  rw [if_neg hne]
  cases target with
  | u64 =>
    refine congrArg (ofInt .u64) ?_
    rw [if_pos (isFloat_ofBinary x), hdouble]
    rfl
  | i8 | i16 | i32 | i64 | u8 | u16 | u32 => exact congrArg (ofInt _) hsigned
  | f16 | f32 | f64 | bf16 | bool => contradiction

private theorem toInt_cast_ofBinary :
    ((ofBinary t x).cast target).toInt ≡ target.carrier.clamp x [ZMOD 2 ^ target.width] := by
  rw [cast_ofBinary ht]
  exact toInt_ofInt _ _

/-- The cast clamps to the range of the target exactly if reducing to the target does not tell the clamped numbers
apart. -/
theorem toInt_cast_eq_clamp : ((ofBinary t x).cast target).toInt = target.clamp x ↔
    target.carrier.clamp x ≡ target.clamp x [ZMOD 2 ^ target.width] := by
  constructor
  · intro h
    rw [← h]
    exact (toInt_cast_ofBinary ht x).symm
  · intro h
    have hcast := ((ofBinary t x).cast target).holds_toInt
    rw [Scalar.type_cast] at hcast
    exact ElementType.eq_of_modEq hcast (ElementType.holds_clamp ht x) ((toInt_cast_ofBinary ht x).trans h)

theorem toInt_cast_of_holds (h : target.Holds (target.carrier.clamp x)) :
    ((ofBinary t x).cast target).toInt = target.clamp x := by
  rw [toInt_cast_eq_clamp ht, ElementType.clamp_of_holds ht h]

theorem toInt_cast_of_width (h : target.width = 64) : ((ofBinary t x).cast target).toInt = target.clamp x := by
  rw [toInt_cast_eq_clamp ht, ElementType.carrier_of_width ht h]

theorem toInt_cast_of_isNaN (hx : x.isNaN = true) : ((ofBinary t x).cast target).toInt = 0 := by
  have hzero (type : ElementType) : type.clamp x = 0 := Binary.saturate_of_isNaN hx
  rw [← hzero target, toInt_cast_eq_clamp ht, hzero, hzero]

end

end Scalar

namespace Context

open Scalar (ofBinary ofInt)

variable {c : Context} {v : Tensor} {t : FloatType}

theorem get_set_ofBinary (hv : v.type.isInteger = true) (hvalid : c.validate v = .ok ()) (x : Binary t.format)
    {index : List Nat} (hi : List.Forall₂ (· < ·) index v.shape.toList) :
    ∃ c', c.set v index (ofBinary t x) = (.ok (), c') ∧
      c'.get v index = .ok (ofInt v.type (v.type.carrier.clamp x)) := by
  have hset := (hosts_of_validate hvalid).set hi (ofBinary t x)
  have hget := (stores_of_set hset).get rfl
  exact ⟨_, hset, hget.trans (congrArg Except.ok (Scalar.cast_ofBinary hv x))⟩

theorem get_fill_ofBinary (hv : v.type.isInteger = true) (hvalid : c.validate v = .ok ()) (htiled : v.Tiled)
    (x : Binary t.format) :
    ∃ c', c.fill v (ofBinary t x) = (.ok (), c') ∧ ∀ {index}, List.Forall₂ (· < ·) index v.shape.toList →
      c'.get v index = .ok (ofInt v.type (v.type.carrier.clamp x)) := by
  have hhosts := hosts_of_validate hvalid
  obtain ⟨places, hplaces, -⟩ := hhosts.offsets
  have hfill := hhosts.fill hplaces (ofBinary t x)
  refine ⟨_, hfill, fun hi => ?_⟩
  have hget := (stores_of_fill htiled hfill).get hi
  exact hget.trans (congrArg Except.ok (Scalar.cast_ofBinary hv x))

/-- A float is truncated, clamped to the 64-bit integers and then reduced to the type, also when it is stored in an
integer tensor. So integers of 64 bits are clamped to their range and in the order of the numbers, a NaN becomes zero,
and a narrower type is exact within its range, while a number beyond it is not clamped but wraps. -/
theorem stores_truncated {target : ElementType} (ht : target.isInteger = true) (x : Binary t.format) :
    (ofBinary t x).cast target = ofInt target (target.carrier.clamp x) ∧
    (x.isNaN = true → ((ofBinary t x).cast target).toInt = 0) ∧
    (((ofBinary t x).cast target).toInt = target.clamp x ↔
      target.carrier.clamp x ≡ target.clamp x [ZMOD 2 ^ target.width]) ∧
    (target.Holds (target.carrier.clamp x) → ((ofBinary t x).cast target).toInt = target.clamp x) ∧
    (target.width = 64 → ((ofBinary t x).cast target).toInt = target.clamp x ∧
      ∀ y : Binary t.format, x.isNaN = false → y.isNaN = false → y.lt x = false →
        ((ofBinary t x).cast target).toInt ≤ ((ofBinary t y).cast target).toInt) ∧
    (∀ {c v index}, v.type = target → validate c v = .ok () → List.Forall₂ (· < ·) index v.shape.toList →
      ∃ c', c.set v index (ofBinary t x) = (.ok (), c') ∧
        c'.get v index = .ok (ofInt target (target.carrier.clamp x))) ∧
    ∀ {c v}, v.type = target → validate c v = .ok () → v.Tiled →
      ∃ c', c.fill v (ofBinary t x) = (.ok (), c') ∧ ∀ {index}, List.Forall₂ (· < ·) index v.shape.toList →
        c'.get v index = .ok (ofInt target (target.carrier.clamp x)) := by
  refine ⟨Scalar.cast_ofBinary ht x, Scalar.toInt_cast_of_isNaN ht x, Scalar.toInt_cast_eq_clamp ht x,
    Scalar.toInt_cast_of_holds ht x,
    fun hwidth => ⟨Scalar.toInt_cast_of_width ht x hwidth, fun y hx hy h => ?_⟩, ?_, ?_⟩
  · rw [Scalar.toInt_cast_of_width ht x hwidth, Scalar.toInt_cast_of_width ht y hwidth]
    exact ElementType.clamp_le ht t.infinityBits_pos hx hy h
  · rintro c v index rfl hvalid hi
    exact get_set_ofBinary ht hvalid x hi
  · rintro c v rfl hvalid htiled
    exact get_fill_ofBinary ht hvalid htiled x

/-- The number -300.75. -/
def minusThreeHundred : Binary FloatType.f32.format := Binary.ofNat _ 0xc3966000

/-- The three numbers of each row as words. -/
def repeatedWords : Tensor := { repeatedRows with type := .i32 }

theorem stores_truncated_repeatedWords :
    ElementType.i32.carrier.clamp minusThreeHundred = -300 ∧ ElementType.i32.Holds (-300) ∧
      ((ofBinary .f32 minusThreeHundred).cast .i32).toInt = ElementType.i32.clamp minusThreeHundred ∧
      sixteenBytes.validate repeatedWords = .ok () ∧ repeatedWords.Tiled ∧
      (∃ c, sixteenBytes.set repeatedWords [1, 2, 0] (ofBinary .f32 minusThreeHundred) = (.ok (), c) ∧
        c.get repeatedWords [1, 2, 0] = .ok (ofInt .i32 (-300))) ∧
      ∃ c, sixteenBytes.fill repeatedWords (ofBinary .f32 minusThreeHundred) = (.ok (), c) ∧
        c.get repeatedWords [1, 2, 0] = .ok (ofInt .i32 (-300)) := by
  have hinteger : ElementType.i32.isInteger = true := rfl
  obtain ⟨-, -, -, hholds, -, hset, hfill⟩ := stores_truncated hinteger minusThreeHundred
  have hclamp : ElementType.i32.carrier.clamp minusThreeHundred = -300 := by
    rw [ElementType.clamp, ← Binary.toInt_eq_saturate]
    decide
  rw [hclamp] at hholds hset hfill
  have hvalid : sixteenBytes.validate repeatedWords = .ok () := rfl
  have htiled : repeatedWords.Tiled := tiled_repeatedRows
  have hbelow : List.Forall₂ (· < ·) [1, 2, 0] repeatedWords.shape.toList := by decide
  obtain ⟨c, hc, hget⟩ := hfill rfl hvalid htiled
  exact ⟨hclamp, by decide, hholds (by decide), hvalid, htiled, hset rfl hvalid hbelow, c, hc, hget hbelow⟩

/-- A byte does not hold the number 300: it becomes 44 instead of 255, and is less than what 200 becomes. -/
theorem three_hundred_wraps :
    ((ofBinary .f32 (Binary.ofNat _ 0x43960000)).cast .u8).toInt = 44 ∧
      ElementType.u8.clamp (Binary.ofNat FloatType.f32.format 0x43960000) = 255 ∧
      (Binary.ofNat FloatType.f32.format 0x43960000).lt (Binary.ofNat _ 0x43480000) = false ∧
      ((ofBinary .f32 (Binary.ofNat _ 0x43480000)).cast .u8).toInt = 200 := by
  refine ⟨by decide, ?_, by decide, by decide⟩
  rw [ElementType.clamp, ← Binary.toInt_eq_saturate]
  decide

end Context

end StridedTensor
