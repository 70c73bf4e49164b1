import StridedTensor.Proofs.Widening
import StridedTensor.Scalar.Arithmetic

/-!
# Scalars as operands

A kernel takes a scalar operand to its accumulator, while a cast takes it to the type of the elements, which are widened
to the accumulator afterwards. Both yield the same operand if the elements have the format of the accumulator, and for
elements of half that width if their type holds the number (`Scalar.alike_widen_cast`). NaNs come out as NaNs on both
ways, and an operation makes NaNs of them again (`FloatType.alike_combine`).
-/

namespace StridedTensor

namespace Format

variable {f g : Format}

/-- A number of the format ends in zeros where the wider format has places to spare. -/
private theorem Embeds.dvd_of_units {a b k : Nat} (hfraction : f.fractionBits + k ≤ g.fractionBits)
    (hleast : k ≤ (f.leastExponent - g.leastExponent).toNat)
    (h : g.units b = f.units a <<< (f.leastExponent - g.leastExponent).toNat) : 2 ^ k ∣ b := by
  generalize (f.leastExponent - g.leastExponent).toNat = d at hleast h
  obtain ⟨s, hs, hb⟩ := g.magnitude_eq b
  have hplace : 2 ^ k ∣ s := by
    rcases Nat.eq_zero_or_pos (f.units a) with h0 | hpos
    · have hzero : s * 2 ^ g.lastPlace (g.units b) = 0 := by rw [← hs, h, h0, Nat.zero_shiftLeft]
      rw [(Nat.mul_eq_zero.1 hzero).resolve_right (Nat.two_pow_pos _).ne']
      exact Nat.dvd_zero _
    · obtain ⟨r, hr, -⟩ := f.magnitude_eq a
      have hle : g.lastPlace (g.units b) + k ≤ f.lastPlace (f.units a) + d := by
        unfold lastPlace
        rw [h, Nat.shiftLeft_eq, log2_mul_two_pow hpos.ne']
        omega
      have hwhole : s * 2 ^ g.lastPlace (g.units b) = r * 2 ^ (f.lastPlace (f.units a) + d) := by
        rw [← hs, h, Nat.shiftLeft_eq, Nat.pow_add, ← Nat.mul_assoc, ← hr]
      apply Nat.dvd_of_mul_dvd_mul_right (Nat.two_pow_pos (g.lastPlace (g.units b)))
      rw [← Nat.pow_add, hwhole]
      exact Nat.dvd_mul_left_of_dvd (Nat.pow_dvd_pow 2 (by omega)) _
  rw [← hb]
  exact Nat.dvd_add (Nat.dvd_mul_left_of_dvd (Nat.pow_dvd_pow 2 (by omega)) _) hplace

/-- A format of half the width of single precision: single precision holds its numbers, and so does the upper half of
double precision. -/
structure Short (f : Format) : Prop where
  embeds_single : Embeds f single
  embeds_double : Embeds f double
  fractionBits_pos : 0 < f.fractionBits
  fractionBits_le : f.fractionBits + 32 ≤ double.fractionBits
  leastExponent_le : 32 ≤ (f.leastExponent - double.leastExponent).toNat

theorem short_half : Short half := by
  constructor
  · exact half_embeds_single
  · constructor <;> decide +kernel
  all_goals decide

theorem short_bfloat : Short bfloat := by
  constructor
  · exact bfloat_embeds_single
  · constructor <;> decide +kernel
  all_goals decide

end Format

namespace Binary

open Format

variable {f g : Format} {x y : Binary f}

/-- The same pattern, or a NaN both. -/
def Alike (x y : Binary f) : Prop := x = y ∨ x.isNaN = true ∧ y.isNaN = true

instance : Decidable (x.Alike y) := inferInstanceAs (Decidable (_ ∨ _))

/-! ### Conversions that lose nothing -/

theorem Corresponds.trans {h : Format} {a b c : Nat} (hgf : g.leastExponent ≤ f.leastExponent)
    (hhg : h.leastExponent ≤ g.leastExponent) (hab : Corresponds f g a b) (hbc : Corresponds g h b c) :
    Corresponds f h a c := by
  cases hab with
  | infinite ha hb =>
    cases hbc with
    | infinite _ hc => exact .infinite ha hc
    | finite hb' => exact absurd hb hb'.ne
  | finite ha hb hunits =>
    cases hbc with
    | infinite hb' => exact absurd hb' hb.ne
    | finite _ hc hunits' =>
      refine .finite ha hc ?_
      rw [show (g.leastExponent - f.leastExponent).toNat = 0 by omega, Nat.shiftLeft_zero] at hunits
      rw [show (h.leastExponent - g.leastExponent).toNat = 0 by omega, Nat.shiftLeft_zero, ← hunits,
        ← Nat.shiftLeft_add] at hunits'
      rw [show (h.leastExponent - f.leastExponent).toNat = 0 by omega, Nat.shiftLeft_zero, ← hunits',
        show (f.leastExponent - g.leastExponent).toNat + (g.leastExponent - h.leastExponent).toNat =
          (f.leastExponent - h.leastExponent).toNat by omega]

/-- A widened number is widened again as the number itself would be. -/
private theorem convert_widened {h : Format} (hfg : Embeds f g) (hgh : Embeds g h) (hx : x.isNaN = false) :
    (x.convert g).convert h = x.convert h := by
  obtain ⟨b, hb⟩ := exists_corresponds hfg (magnitude_le x hx)
  obtain ⟨c, hc⟩ := exists_corresponds hgh hb.right_le
  have hsecond : Corresponds g h (x.convert g).magnitude c := by rwa [hb.magnitude_convert]
  rw [hsecond.convert_eq, hb.isNegative_convert,
    (hb.trans hfg.leastExponent_le hgh.leastExponent_le hc).convert_eq]

/-- A number that has been widened can be narrowed again. -/
private theorem alike_convert_back (h : Embeds f g) (hf : 0 < f.fractionBits) (x : Binary f) :
    Alike ((x.convert g).convert f) x := by
  cases hx : x.isNaN with
  | true => exact .inr ⟨isNaN_convert_of_isNaN ((isNaN_convert h x).trans hx) hf, hx⟩
  | false => exact .inl (convert_convert h hx)

/-- A number that single precision holds is the same in single precision by way of double precision. -/
private theorem alike_convert_single (hf : Embeds f single) (x : Binary f) :
    Alike ((x.convert .double).convert .single) (x.convert .single) := by
  cases hx : x.isNaN with
  | true =>
    have hdouble : (x.convert .double).isNaN = true := isNaN_convert_of_isNaN hx (by decide)
    exact .inr ⟨isNaN_convert_of_isNaN hdouble (by decide), isNaN_convert_of_isNaN hx (by decide)⟩
  | false =>
    have hsingle : (x.convert .single).isNaN = false := (isNaN_convert hf x).trans hx
    left
    rw [← convert_widened hf single_embeds_double hx, convert_convert single_embeds_double hsingle]

/-! ### Rounding the upper half of a double -/

private theorem dropLowHalf_eq {x : Binary .double} (h : 2 ^ 32 ∣ x.magnitude) : x.dropLowHalf = x := by
  have hdvd : 2 ^ 32 ∣ x.toNat := by
    rw [toNat_eq]
    refine Nat.dvd_add ?_ h
    split
    · exact Nat.pow_dvd_pow 2 (by decide)
    · exact Nat.dvd_zero _
  unfold dropLowHalf
  split
  · rfl
  · rw [Nat.shiftRight_eq_div_pow, Nat.shiftLeft_eq, Nat.div_mul_cancel hdvd, ofNat_toNat]

private theorem isNaN_ofDouble {x : Binary .double} (hx : x.isNaN = true) (hf : 0 < f.fractionBits) :
    (ofDouble f x).isNaN = true := by
  rw [ofDouble, dropLowHalf, if_pos hx]
  exact isNaN_convert_of_isNaN hx hf

private theorem ofDouble_convert (hf : Short f) (hx : x.isNaN = false) : ofDouble f (x.convert .double) = x := by
  obtain ⟨b, hb⟩ := exists_corresponds hf.embeds_double (magnitude_le x hx)
  have hdvd : 2 ^ 32 ∣ b := by
    have hleast := hf.embeds_double.leastExponent_le
    cases hb with
    | infinite _ hb =>
      rw [hb]
      decide
    | finite _ _ hunits =>
      rw [show (double.leastExponent - f.leastExponent).toNat = 0 by omega, Nat.shiftLeft_zero] at hunits
      exact Embeds.dvd_of_units hf.fractionBits_le hf.leastExponent_le hunits.symm
  rw [ofDouble, dropLowHalf_eq (by rwa [hb.magnitude_convert]), convert_convert hf.embeds_double hx]

/-- If a short format holds the number, nothing is lost on the way through it. -/
private theorem alike_ofDouble (hf : Short f) {v : Binary .double}
    (hv : v.isNaN = true ∨ ∃ a : Binary f, a.convert .double = v) :
    Alike (v.convert .single) ((ofDouble f v).convert .single) := by
  cases hnan : v.isNaN with
  | true =>
    have hshort : (ofDouble f v).isNaN = true := isNaN_ofDouble hnan hf.fractionBits_pos
    exact .inr ⟨isNaN_convert_of_isNaN hnan (by decide), isNaN_convert_of_isNaN hshort (by decide)⟩
  | false =>
    obtain ⟨a, rfl⟩ := hv.resolve_left (by simp [hnan])
    rw [ofDouble_convert hf ((isNaN_convert hf.embeds_double a).symm.trans hnan)]
    exact alike_convert_single hf.embeds_single a

/-! ### Operations on NaNs -/

private theorem isNaN_quiet (hx : x.isNaN = true) : x.quiet.isNaN = true := by
  have hmagnitude : x.quiet.magnitude = x.magnitude ||| f.quietBit % 2 ^ (f.width - 1) := by
    rw [quiet, magnitude, toNat, ofNat, BitVec.toNat_ofNat, Nat.one_shiftLeft,
      Nat.mod_mod_of_dvd _ (Nat.pow_dvd_pow 2 (Nat.sub_le _ _)), Nat.or_mod_two_pow, magnitude, Nat.one_shiftLeft]
  rw [isNaN_iff, hmagnitude]
  exact ((isNaN_iff x).1 hx).trans_le Nat.left_le_or

private theorem isNaN_passNaN (hy : y.isNaN = true) : (passNaN x y).isNaN = true := by
  unfold passNaN
  split
  · exact isNaN_quiet ‹_›
  · exact isNaN_quiet hy

end Binary

/-- An operation on a NaN yields one. -/
private theorem BinaryOp.isNaN_apply (op : BinaryOp) {f : Format} (x : Binary f) {y : Binary f} (hy : y.isNaN = true) :
    (op.apply x y).isNaN = true := by
  have hpass := Binary.isNaN_passNaN (x := x) hy
  have hvalue : y.value = .nan := Binary.value_of_isNaN hy
  cases op with
  | add =>
    unfold apply Binary.add
    rw [hvalue]
    cases x.value <;> exact hpass
  | sub =>
    unfold apply Binary.sub
    rwa [hy, Bool.or_true, if_pos rfl]
  | mul =>
    unfold apply Binary.mul
    rw [hvalue]
    cases x.value <;> exact hpass
  | div =>
    unfold apply Binary.div
    rw [hvalue]
    cases x.value <;> exact hpass

namespace FloatType

theorem element_injective : Function.Injective element := fun t t' h =>
  Option.some.inj (by rw [← t.float?_element, h, t'.float?_element])

private theorem isNaN_narrow (t : FloatType) {x : Binary t.accumulator} (hx : x.isNaN = true) :
    (t.narrow x).isNaN = true := by
  cases t with
  | f16 | bf16 => exact Binary.isNaN_convert_of_isNaN hx (by decide)
  | f32 | f64 => exact hx

/-- The element that a kernel stores for the element `a` and an operand in the accumulator. -/
def combine (t : FloatType) (op : BinaryOp) (a : Binary t.format) (rhs : Binary t.accumulator) : Binary t.format :=
  t.narrow (op.apply (t.widen a) rhs)

theorem alike_combine (t : FloatType) (op : BinaryOp) (a : Binary t.format) {y z : Binary t.accumulator}
    (h : y.Alike z) : (t.combine op a y).Alike (t.combine op a z) := by
  rcases h with rfl | ⟨hy, hz⟩
  · exact .inl rfl
  · exact .inr ⟨t.isNaN_narrow (op.isNaN_apply _ hy), t.isNaN_narrow (op.isNaN_apply _ hz)⟩

end FloatType

/-! ### Two ways to an operand -/

namespace Scalar

open Binary

variable {s : Scalar} {t : FloatType}

/-- Elements of type `t` can take the scalar as it is: kernels compute in the type itself, or it holds the number. -/
def HeldBy (s : Scalar) (t : FloatType) : Prop :=
  t.format = t.accumulator ∨ s.toDouble.isNaN = true ∨ ∃ a : Binary t.format, a.convert .double = s.toDouble

/-- The element that a cast makes of the scalar. -/
def element (s : Scalar) (t : FloatType) : Binary t.format := Binary.ofNat t.format (s.cast t.element).pattern

theorem pattern_ofBinary (x : Binary t.format) : Binary.ofNat t.format (ofBinary t x).pattern = x := by
  have hlt : x.toNat < 2 ^ t.element.width := t.width_element ▸ x.bits.isLt
  rw [pattern, ofBinary, Scalar.ofNat, BitVec.toNat_ofNat, Nat.mod_eq_of_lt hlt, Binary.ofNat_toNat]

theorem cast_of_type {type : ElementType} (h : s.type = type) : s.cast type = s := by
  unfold cast
  exact if_pos h

private theorem element_of_type (h : s.type = t.element) : s.element t = Binary.ofNat t.format s.pattern := by
  rw [element, cast_of_type h]

private theorem element_of_cast {x : Binary t.format} (h : s.cast t.element = ofBinary t x) : s.element t = x := by
  rw [element, h, pattern_ofBinary]

private theorem element_f32 (s : Scalar) : s.element .f32 = s.toSingle := by
  by_cases h : s.type = .f32
  · rw [element_of_type h, toSingle, h]
    rfl
  · exact element_of_cast (t := .f32) (if_neg h)

private theorem element_f64 (s : Scalar) : s.element .f64 = s.toDouble := by
  by_cases h : s.type = .f64
  · rw [element_of_type h, toDouble, h]
    rfl
  · exact element_of_cast (t := .f64) (if_neg h)

private theorem alike_toSingle (s : Scalar) : Alike (s.toDouble.convert .single) s.toSingle := by
  unfold toSingle toDouble
  generalize s.type.float? = found
  match found with
  | some .f16 => exact alike_convert_single Format.half_embeds_single _
  | some .bf16 => exact alike_convert_single Format.bfloat_embeds_single _
  | some .f32 => exact alike_convert_back Format.single_embeds_double (by decide) _
  | some .f64 | none => exact .inl rfl

private theorem alike_of_short (hf : Format.Short t.format)
    (hown : s.type = t.element → s.toDouble = (Binary.ofNat t.format s.pattern).convert .double)
    (hcast : s.type ≠ t.element → s.cast t.element = ofBinary t (Binary.ofDouble t.format s.toDouble))
    (h : s.toDouble.isNaN = true ∨ ∃ a : Binary t.format, a.convert .double = s.toDouble) :
    Alike (s.toDouble.convert .single) ((s.element t).convert .single) := by
  by_cases htype : s.type = t.element
  · rw [element_of_type htype, hown htype]
    exact alike_convert_single hf.embeds_single _
  · rw [element_of_cast (hcast htype)]
    exact alike_ofDouble hf h

/-- The cast operand is the one that the kernel works with, if elements can take the scalar as it is. -/
theorem alike_widen_cast (h : s.HeldBy t) : Alike (t.ofDouble s.toDouble) (t.widen (s.element t)) := by
  cases t with
  | f16 =>
    exact alike_of_short (t := .f16) Format.short_half (fun htype => by rw [toDouble, htype]; rfl) (fun hne => if_neg hne)
      (h.resolve_left (by decide))
  | bf16 =>
    exact alike_of_short (t := .bf16) Format.short_bfloat (fun htype => by rw [toDouble, htype]; rfl)
      (fun hne => if_neg hne) (h.resolve_left (by decide))
  | f32 =>
    rw [element_f32]
    exact s.alike_toSingle
  | f64 => exact .inl s.element_f64.symm

end Scalar

end StridedTensor
