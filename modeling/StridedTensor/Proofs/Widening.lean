import StridedTensor.Kernel.Operation
import StridedTensor.Proofs.Units

/-!
# Widening

Kernels compute in a format that holds every number of the type of the elements. So widening an element loses nothing:
it keeps the order and the NaNs (`Binary.lt_convert`, `Binary.isNaN_convert`), and narrowing undoes it
(`Binary.convert_convert`).
-/

namespace StridedTensor

namespace Format

private theorem infinityBits_add (f : Format) : f.infinityBits + 2 ^ f.fractionBits = 2 ^ (f.width - 1) := by
  have hpos := Nat.two_pow_pos f.exponentBits
  rw [infinityBits, width, Nat.one_shiftLeft, Nat.shiftLeft_eq, Nat.add_sub_cancel, Nat.pow_add, ← Nat.succ_mul,
    Nat.succ_eq_add_one, Nat.sub_add_cancel hpos]

theorem infinityBits_lt (f : Format) : f.infinityBits < 2 ^ (f.width - 1) := by
  have := f.infinityBits_add
  have := Nat.two_pow_pos f.fractionBits
  omega

end Format

namespace Binary

open Format

variable {f g : Format}

/-! ### Patterns -/

variable (x y : Binary f)

theorem magnitude_lt : x.magnitude < 2 ^ (f.width - 1) := by
  rw [magnitude, Nat.one_shiftLeft]
  exact Nat.mod_lt _ (Nat.two_pow_pos _)

theorem toNat_eq : x.toNat = (if x.isNegative then 2 ^ (f.width - 1) else 0) + x.magnitude := by
  have hlt : x.toNat < 2 ^ (f.width - 1 + 1) := x.bits.isLt
  rw [magnitude, Nat.one_shiftLeft, isNegative, BitVec.msb_eq_decide]
  change x.toNat = (if decide (2 ^ (f.width - 1) ≤ x.toNat) = true then 2 ^ (f.width - 1) else 0) + _
  rw [Nat.pow_succ] at hlt
  by_cases h : 2 ^ (f.width - 1) ≤ x.toNat
  · rw [decide_eq_true h, if_pos rfl, Nat.mod_eq_sub_mod h, Nat.mod_eq_of_lt (by omega)]
    omega
  · rw [decide_eq_false h, if_neg (by decide), Nat.mod_eq_of_lt (by omega), Nat.zero_add]

@[simp] theorem ofNat_toNat : ofNat f x.toNat = x := by
  rw [ofNat, toNat, BitVec.ofNat_toNat, BitVec.setWidth_eq]

theorem ofMagnitude_magnitude : ofMagnitude x.isNegative x.magnitude = x := by
  rw [ofMagnitude, Nat.one_shiftLeft, ← toNat_eq, ofNat_toNat]

section ofMagnitude

variable {m : Nat} (negative : Bool) (h : m < 2 ^ (f.width - 1))
include h

private theorem toNat_ofMagnitude : (ofMagnitude negative m : Binary f).toNat =
    (if negative then 2 ^ (f.width - 1) else 0) + m := by
  rw [ofMagnitude, Nat.one_shiftLeft, ofNat, toNat, BitVec.toNat_ofNat]
  refine Nat.mod_eq_of_lt (lt_of_lt_of_eq ?_ (Nat.pow_succ (n := 2) (m := f.width - 1)).symm)
  split <;> omega

theorem magnitude_ofMagnitude : (ofMagnitude negative m : Binary f).magnitude = m := by
  rw [magnitude, Nat.one_shiftLeft, toNat_ofMagnitude negative h]
  cases negative
  · simp [Nat.mod_eq_of_lt h]
  · simp [Nat.mod_eq_of_lt h]

theorem isNegative_ofMagnitude : (ofMagnitude negative m : Binary f).isNegative = negative := by
  have htoNat := toNat_ofMagnitude negative h
  have hsplit := toNat_eq (ofMagnitude negative m : Binary f)
  rw [magnitude_ofMagnitude negative h, htoNat] at hsplit
  have := Nat.two_pow_pos (f.width - 1)
  cases negative <;> cases hs : (ofMagnitude _ m : Binary f).isNegative <;> simp [hs] at hsplit ⊢

end ofMagnitude

theorem isNaN_iff : x.isNaN = true ↔ f.infinityBits < x.magnitude := decide_eq_true_iff

theorem magnitude_le (h : x.isNaN = false) : x.magnitude ≤ f.infinityBits :=
  Nat.le_of_not_lt fun hlt => by simp [(isNaN_iff x).2 hlt] at h

section value

variable {x : Binary f}

theorem value_of_isNaN (h : x.isNaN = true) : x.value = .nan := if_pos h

theorem value_of_infinite (h : x.magnitude = f.infinityBits) : x.value = .infinity x.isNegative := by
  have hnan : ¬ x.isNaN = true := by
    rw [isNaN_iff, h]
    exact Nat.lt_irrefl _
  rw [value, if_neg hnan, if_pos h]

theorem value_of_finite (h : x.magnitude < f.infinityBits) :
    x.value = .finite x.isNegative (unpack f x.magnitude).1 (unpack f x.magnitude).2 := by
  have hnan : ¬ x.isNaN = true := by
    rw [isNaN_iff]
    exact Nat.lt_asymm h
  rw [value, if_neg hnan, if_neg h.ne]

end value

/-- Two patterns are equal if they are numbers and neither is less than the other. -/
theorem same_eq_lt : x.same y = (!x.isNaN && !y.isNaN && !x.lt y && !y.lt x) := by
  rw [Bool.eq_iff_iff]
  unfold same lt
  cases x.isNaN <;> cases y.isNaN <;> simp
  omega

/-! ### Conversion -/

/-- A NaN stays one in any format: the quiet bit makes its payload positive, and what does not fit of the payload is
dropped. -/
theorem isNaN_convert_of_isNaN {x : Binary f} (hx : x.isNaN = true) (hg : 0 < g.fractionBits) :
    (x.convert g).isNaN = true := by
  have hpayload : x.magnitude - f.infinityBits < 2 ^ f.fractionBits := by
    have := magnitude_lt x
    have := f.infinityBits_add
    have := Nat.two_pow_pos f.fractionBits
    omega
  have hquiet : g.quietBit < 2 ^ g.fractionBits := by
    rw [quietBit, Nat.one_shiftLeft]
    exact Nat.pow_lt_pow_right (by decide) (Nat.sub_lt hg Nat.one_pos)
  have hpos : 0 < g.quietBit := by
    rw [quietBit, Nat.one_shiftLeft]
    exact Nat.two_pow_pos _
  obtain ⟨moved, hmoved, hmagnitude⟩ : ∃ moved < 2 ^ g.fractionBits,
      nanMagnitude g x = g.infinityBits + (moved ||| g.quietBit) := by
    refine ⟨_, ?_, rfl⟩
    rw [Nat.shiftLeft_eq, Nat.shiftRight_eq_div_pow]
    apply Nat.div_lt_of_lt_mul
    rw [← Nat.pow_add, show f.fractionBits - g.fractionBits + g.fractionBits =
      f.fractionBits + (g.fractionBits - f.fractionBits) by omega, Nat.pow_add]
    exact Nat.mul_lt_mul_of_pos_right hpayload (Nat.two_pow_pos _)
  have hconvert : x.convert g = ofMagnitude x.isNegative (nanMagnitude g x) := by simp only [convert, value_of_isNaN hx]
  have hbelow := Nat.or_lt_two_pow hmoved hquiet
  have habove : g.quietBit ≤ moved ||| g.quietBit := Nat.right_le_or
  have := g.infinityBits_add
  rw [hconvert, isNaN_iff, hmagnitude, magnitude_ofMagnitude _ (by omega)]
  omega

/-- The magnitudes `a` of `f` and `b` of `g` stand for the same number, or both for infinity. -/
inductive Corresponds (f g : Format) (a b : Nat) : Prop
  | finite (left : a < f.infinityBits) (right : b < g.infinityBits)
      (units : f.units a <<< (f.leastExponent - g.leastExponent).toNat =
        g.units b <<< (g.leastExponent - f.leastExponent).toNat)
  | infinite (left : a = f.infinityBits) (right : b = g.infinityBits)

namespace Corresponds

variable {a b a' b' : Nat} {x : Binary f}

theorem symm (h : Corresponds f g a b) : Corresponds g f b a := by
  cases h with
  | finite ha hb hunits => exact .finite hb ha hunits.symm
  | infinite ha hb => exact .infinite hb ha

private theorem lt_iff (h : Corresponds f g a b) (h' : Corresponds f g a' b') : a < a' ↔ b < b' := by
  cases h with
  | finite ha hb hunits =>
    cases h' with
    | finite _ _ hunits' =>
      have hshift (k m n : Nat) : m <<< k < n <<< k ↔ m < n := by
        rw [Nat.shiftLeft_eq, Nat.shiftLeft_eq, Nat.mul_lt_mul_right (Nat.two_pow_pos k)]
      calc a < a'
        _ ↔ f.units a < f.units a' := f.units_strictMono.lt_iff_lt.symm
        _ ↔ g.units b < g.units b' := by
          rw [← hshift (f.leastExponent - g.leastExponent).toNat, hunits, hunits', hshift]
        _ ↔ b < b' := g.units_strictMono.lt_iff_lt
    | infinite ha' hb' => exact iff_of_true (ha' ▸ ha) (hb' ▸ hb)
  | infinite ha hb =>
    subst ha hb
    cases h' with
    | finite ha' hb' _ => exact iff_of_false (Nat.lt_asymm ha') (Nat.lt_asymm hb')
    | infinite ha' hb' => exact iff_of_false (by omega) (by omega)

theorem right_le (h : Corresponds f g a b) : b ≤ g.infinityBits := by
  cases h with
  | finite _ hb _ => exact hb.le
  | infinite _ hb => exact hb.le

/-- Converting keeps the sign and takes the magnitude to its counterpart. -/
theorem convert_eq (h : Corresponds f g x.magnitude b) : x.convert g = ofMagnitude x.isNegative b := by
  have hle := h.right_le
  cases h with
  | finite ha _ hunits =>
    have hround : roundMagnitude g (unpack f x.magnitude).1 1 (unpack f x.magnitude).2 = b := by
      refine roundMagnitude_eq hle ?_
      rw [units, ← Nat.shiftLeft_add] at hunits
      have hleast := f.leastExponent_le_unpack x.magnitude
      have hshift := shiftLeft_eq_of_sub_eq hunits (k := (unpack f x.magnitude).2 - g.leastExponent) (by omega)
      exact hshift
    simp only [convert, value_of_finite ha, round, hround]
  | infinite ha hb => simp only [convert, value_of_infinite ha, infinity, hb]

theorem magnitude_convert (h : Corresponds f g x.magnitude b) : (x.convert g).magnitude = b := by
  rw [h.convert_eq, magnitude_ofMagnitude _ (h.right_le.trans_lt g.infinityBits_lt)]

theorem isNegative_convert (h : Corresponds f g x.magnitude b) : (x.convert g).isNegative = x.isNegative := by
  rw [h.convert_eq, isNegative_ofMagnitude _ (h.right_le.trans_lt g.infinityBits_lt)]

end Corresponds

section Embeds

variable (h : Embeds f g)
include h

theorem exists_corresponds {a : Nat} (ha : a ≤ f.infinityBits) : ∃ b, Corresponds f g a b := by
  rcases Nat.lt_or_eq_of_le ha with hlt | rfl
  · obtain ⟨b, hb, hunits⟩ := h.exists_units hlt
    refine ⟨b, .finite hlt hb ?_⟩
    have hle := h.leastExponent_le
    rw [hunits, show (g.leastExponent - f.leastExponent).toNat = 0 by omega, Nat.shiftLeft_zero]
  · exact ⟨_, .infinite rfl rfl⟩

private theorem corresponds_zero : Corresponds f g 0 0 := by
  obtain ⟨b, hb, -⟩ := h.exists_units h.infinityBits_pos
  refine .finite h.infinityBits_pos (Nat.zero_lt_of_lt hb) ?_
  rw [units_zero, units_zero, Nat.zero_shiftLeft, Nat.zero_shiftLeft]

theorem isNaN_convert (x : Binary f) : (x.convert g).isNaN = x.isNaN := by
  cases hx : x.isNaN with
  | false =>
    obtain ⟨b, hb⟩ := exists_corresponds h (magnitude_le x hx)
    rw [← Bool.not_eq_true, isNaN_iff, hb.magnitude_convert]
    exact Nat.not_lt.2 hb.right_le
  | true => exact isNaN_convert_of_isNaN hx h.fractionBits_pos

private theorem rank_convert_lt {x y : Binary f} (hx : x.isNaN = false) (hy : y.isNaN = false) :
    (x.convert g).rank < (y.convert g).rank ↔ x.rank < y.rank := by
  obtain ⟨a, ha⟩ := exists_corresponds h (magnitude_le x hx)
  obtain ⟨b, hb⟩ := exists_corresponds h (magnitude_le y hy)
  have hzero := corresponds_zero h
  have hlt := ha.lt_iff hb
  have hgt := hb.lt_iff ha
  have hposx := hzero.lt_iff ha
  have hposy := hzero.lt_iff hb
  simp only [rank, ha.magnitude_convert, hb.magnitude_convert, ha.isNegative_convert, hb.isNegative_convert]
  cases x.isNegative <;> cases y.isNegative <;> simp <;> omega

theorem lt_convert (x y : Binary f) : (x.convert g).lt (y.convert g) = x.lt y := by
  unfold lt
  rw [isNaN_convert h, isNaN_convert h]
  cases hx : x.isNaN with
  | true => rfl
  | false =>
    cases hy : y.isNaN with
    | true => rfl
    | false => rw [decide_eq_decide.2 (rank_convert_lt h hx hy)]

private theorem same_convert (x y : Binary f) : (x.convert g).same (y.convert g) = x.same y := by
  rw [same_eq_lt, same_eq_lt, isNaN_convert h, isNaN_convert h, lt_convert h, lt_convert h]

theorem convert_convert {x : Binary f} (hx : x.isNaN = false) : (x.convert g).convert f = x := by
  obtain ⟨b, hb⟩ := exists_corresponds h (magnitude_le x hx)
  have hback : Corresponds g f (x.convert g).magnitude x.magnitude := by
    rw [hb.magnitude_convert]
    exact hb.symm
  rw [hback.convert_eq, hb.isNegative_convert, ofMagnitude_magnitude]

end Embeds

end Binary

/-! ### Elements and accumulators -/

namespace FloatType

variable (t : FloatType) (x y : Binary t.format)

theorem isNaN_widen : (t.widen x).isNaN = x.isNaN := by
  cases t with
  | f16 => exact Binary.isNaN_convert Format.half_embeds_single x
  | bf16 => exact Binary.isNaN_convert Format.bfloat_embeds_single x
  | f32 | f64 => rfl

theorem lt_widen : (t.widen x).lt (t.widen y) = x.lt y := by
  cases t with
  | f16 => exact Binary.lt_convert Format.half_embeds_single x y
  | bf16 => exact Binary.lt_convert Format.bfloat_embeds_single x y
  | f32 | f64 => rfl

theorem same_widen : (t.widen x).same (t.widen y) = x.same y := by
  cases t with
  | f16 => exact Binary.same_convert Format.half_embeds_single x y
  | bf16 => exact Binary.same_convert Format.bfloat_embeds_single x y
  | f32 | f64 => rfl

theorem narrow_widen {t : FloatType} {x : Binary t.format} (hx : x.isNaN = false) : t.narrow (t.widen x) = x := by
  cases t with
  | f16 => exact Binary.convert_convert Format.half_embeds_single hx
  | bf16 => exact Binary.convert_convert Format.bfloat_embeds_single hx
  | f32 | f64 => rfl

end FloatType

end StridedTensor
