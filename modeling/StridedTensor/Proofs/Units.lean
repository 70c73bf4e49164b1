import Mathlib.Algebra.Ring.Nat
import Mathlib.Order.Monotone.Basic
import Mathlib.Tactic.Set
import StridedTensor.Binary.Rounding

/-!
# Units of a format

The finite magnitudes of a format, as whole multiples of its least positive number (`Format.units`). A number of units is
a magnitude if it ends at a last place of the format (`Format.exists_units_eq`), and rounding it, however it is given,
yields that magnitude (`Binary.roundMagnitude_eq`). A format whose numbers are all numbers of another is embedded in it
(`Format.Embeds`).
-/

namespace StridedTensor

theorem log2_mul_two_pow {n : Nat} (hn : n ≠ 0) (k : Nat) : (n * 2 ^ k).log2 = n.log2 + k := by
  induction k with
  | zero => rw [Nat.pow_zero, Nat.mul_one, Nat.add_zero]
  | succ k ih =>
    have hne : n * 2 ^ k ≠ 0 := Nat.mul_ne_zero hn (Nat.two_pow_pos k).ne'
    rw [Nat.pow_succ, ← Nat.mul_assoc, Nat.mul_comm, Nat.log2_two_mul hne, ih, Nat.add_assoc]

theorem shiftLeft_eq_of_sub_eq {m n i j : Nat} {k : Int} (h : m <<< i = n <<< j) (hk : (i : Int) - j = k) :
    m <<< k.toNat = n <<< (-k).toNat := by
  simp only [Nat.shiftLeft_eq] at h ⊢
  rcases Nat.le_total j i with hle | hle
  · obtain ⟨d, rfl⟩ := Nat.exists_eq_add_of_le hle
    rw [show k.toNat = d by omega, show (-k).toNat = 0 by omega, Nat.pow_zero, Nat.mul_one]
    apply Nat.eq_of_mul_eq_mul_right (Nat.two_pow_pos j)
    rw [← h, Nat.mul_assoc, ← Nat.pow_add, Nat.add_comm d]
  · obtain ⟨d, rfl⟩ := Nat.exists_eq_add_of_le hle
    rw [show k.toNat = 0 by omega, show (-k).toNat = d by omega, Nat.pow_zero, Nat.mul_one]
    apply Nat.eq_of_mul_eq_mul_right (Nat.two_pow_pos i)
    rw [h, Nat.mul_assoc, ← Nat.pow_add, Nat.add_comm d]

/-! ### Units -/

namespace Format

open Binary (unpack)

variable {f g : Format} {a u : Nat}

/-- How often the least positive number goes into the number that a finite magnitude stands for. -/
def units (f : Format) (magnitude : Nat) : Nat :=
  (unpack f magnitude).1 <<< ((unpack f magnitude).2 - f.leastExponent).toNat

/-- The exponent of the last place of the significand for so many units, above that of the least one. -/
def lastPlace (f : Format) (units : Nat) : Nat := units.log2 - f.fractionBits

theorem leastExponent_le_unpack (f : Format) (a : Nat) : f.leastExponent ≤ (unpack f a).2 := by
  unfold unpack
  dsimp only
  generalize a / 1 <<< f.fractionBits = exponent
  split
  · exact le_rfl
  · show f.leastExponent ≤ f.leastExponent + exponent - 1
    omega

private theorem units_of_lt (h : a < 2 ^ f.fractionBits) : f.units a = a := by
  simp [units, unpack, Nat.one_shiftLeft, Nat.div_eq_of_lt h, Nat.mod_eq_of_lt h]

private theorem units_normal (f : Format) (exponent : Nat) {fraction : Nat} (h : fraction < 2 ^ f.fractionBits) :
    f.units ((exponent + 1) * 2 ^ f.fractionBits + fraction) = (2 ^ f.fractionBits + fraction) * 2 ^ exponent := by
  have hdiv : ((exponent + 1) * 2 ^ f.fractionBits + fraction) / 2 ^ f.fractionBits = exponent + 1 := by
    rw [Nat.mul_comm, Nat.mul_add_div (Nat.two_pow_pos _), Nat.div_eq_of_lt h, Nat.add_zero]
  have hmod : ((exponent + 1) * 2 ^ f.fractionBits + fraction) % 2 ^ f.fractionBits = fraction := by
    rw [Nat.mul_comm, Nat.mul_add_mod, Nat.mod_eq_of_lt h]
  have hexponent : (f.leastExponent + ((exponent + 1 : Nat) : Int) - 1 - f.leastExponent).toNat = exponent := by omega
  simp only [units, unpack, Nat.shiftLeft_eq, Nat.one_mul, hdiv, hmod, if_neg (Nat.succ_ne_zero exponent), hexponent]

/-- A magnitude is subnormal or has an exponent and a fraction. -/
private theorem magnitude_cases (f : Format) (a : Nat) : a < 2 ^ f.fractionBits ∨
    ∃ exponent fraction, fraction < 2 ^ f.fractionBits ∧ a = (exponent + 1) * 2 ^ f.fractionBits + fraction := by
  rcases Nat.lt_or_ge a (2 ^ f.fractionBits) with h | h
  · exact .inl h
  · have hpos : 0 < a / 2 ^ f.fractionBits := Nat.div_pos h (Nat.two_pow_pos _)
    refine .inr ⟨a / 2 ^ f.fractionBits - 1, a % 2 ^ f.fractionBits, Nat.mod_lt _ (Nat.two_pow_pos _), ?_⟩
    rw [Nat.sub_add_cancel hpos, Nat.mul_comm, Nat.div_add_mod]

theorem units_strictMono (f : Format) : StrictMono f.units := by
  refine strictMono_nat_of_lt_succ fun a => ?_
  rcases f.magnitude_cases a with h | ⟨exponent, fraction, h, rfl⟩
  · rw [units_of_lt h]
    rcases Nat.lt_or_ge (a + 1) (2 ^ f.fractionBits) with hnext | hnext
    · rw [units_of_lt hnext]
      exact Nat.lt_succ_self a
    · have := f.units_normal 0 (Nat.two_pow_pos f.fractionBits)
      rw [show a + 1 = (0 + 1) * 2 ^ f.fractionBits + 0 by omega, this]
      omega
  · rw [units_normal f exponent h, Nat.add_assoc]
    rcases Nat.lt_or_ge (fraction + 1) (2 ^ f.fractionBits) with hnext | hnext
    · rw [units_normal f exponent hnext]
      exact Nat.mul_lt_mul_of_pos_right (by omega) (Nat.two_pow_pos _)
    · -- the fraction is full, and the next number begins with the next exponent
      have := f.units_normal (exponent + 1) (Nat.two_pow_pos f.fractionBits)
      rw [show (exponent + 1) * 2 ^ f.fractionBits + (fraction + 1) = (exponent + 1 + 1) * 2 ^ f.fractionBits + 0 by
        rw [Nat.succ_mul (exponent + 1)]; omega, this, Nat.pow_succ, Nat.mul_comm (2 ^ exponent), ← Nat.mul_assoc]
      exact Nat.mul_lt_mul_of_pos_right (by omega) (Nat.two_pow_pos _)

@[simp] theorem units_zero (f : Format) : f.units 0 = 0 := units_of_lt (Nat.two_pow_pos _)

private theorem units_eq_zero : f.units a = 0 ↔ a = 0 := by
  rw [← f.units_strictMono.injective.eq_iff (a := a), units_zero]

private theorem lastPlace_of_lt (h : u < 2 ^ f.fractionBits) : f.lastPlace u = 0 := by
  rcases Nat.eq_zero_or_pos u with rfl | hpos
  · exact Nat.zero_sub _
  · have := (Nat.log2_lt hpos.ne').2 h
    unfold lastPlace
    omega

private theorem lastPlace_significand (f : Format) (k : Nat) {s : Nat} (hlow : 2 ^ f.fractionBits ≤ s)
    (hhigh : s < 2 ^ (f.fractionBits + 1)) : f.lastPlace (s * 2 ^ k) = k := by
  have hs : s ≠ 0 := (Nat.two_pow_pos f.fractionBits |>.trans_le hlow).ne'
  have hlog : s.log2 = f.fractionBits := (Nat.log2_eq_iff hs).2 ⟨hlow, hhigh⟩
  rw [lastPlace, log2_mul_two_pow hs, hlog, Nat.add_sub_cancel_left]

/-- The units of a magnitude end at a last place of the format, and the magnitude can be read off them. -/
theorem magnitude_eq (f : Format) (a : Nat) : ∃ s, f.units a = s * 2 ^ f.lastPlace (f.units a) ∧
    f.lastPlace (f.units a) * 2 ^ f.fractionBits + s = a := by
  rcases f.magnitude_cases a with h | ⟨exponent, fraction, h, rfl⟩
  · rw [units_of_lt h, lastPlace_of_lt h]
    exact ⟨a, by simp, by simp⟩
  · rw [units_normal f exponent h, lastPlace_significand f exponent (Nat.le_add_right _ _) (by rw [Nat.pow_succ]; omega)]
    exact ⟨_, rfl, by rw [Nat.succ_mul, Nat.add_assoc]⟩

/-- Any number of units that ends at a last place of the format is a magnitude. -/
theorem exists_units_eq (h : 2 ^ f.lastPlace u ∣ u) : ∃ a, f.units a = u := by
  rcases Nat.lt_or_ge u (2 ^ f.fractionBits) with hu | hu
  · exact ⟨u, units_of_lt hu⟩
  · obtain ⟨s, hs⟩ := h
    have hpos : 0 < u := (Nat.two_pow_pos _).trans_le hu
    have hlog : u.log2 = f.fractionBits + f.lastPlace u := by
      have := (Nat.le_log2 hpos.ne').2 hu
      unfold lastPlace
      omega
    obtain ⟨hlow, hhigh⟩ := (Nat.log2_eq_iff hpos.ne').1 hlog
    generalize f.lastPlace u = k at hs hlow hhigh
    rw [hs, Nat.mul_comm, Nat.pow_add] at hlow
    rw [hs, Nat.mul_comm, Nat.add_right_comm, Nat.pow_add] at hhigh
    have hlow := Nat.le_of_mul_le_mul_right hlow (Nat.two_pow_pos k)
    have hhigh := Nat.lt_of_mul_lt_mul_right hhigh
    rw [Nat.pow_succ] at hhigh
    refine ⟨(k + 1) * 2 ^ f.fractionBits + (s - 2 ^ f.fractionBits), ?_⟩
    rw [units_normal f k (by omega), Nat.add_sub_cancel' hlow, hs, Nat.mul_comm]

/-- Every number of the first format is one of the second. -/
structure Embeds (f g : Format) : Prop where
  fractionBits_le : f.fractionBits ≤ g.fractionBits
  fractionBits_pos : 0 < g.fractionBits
  infinityBits_pos : 0 < f.infinityBits
  leastExponent_le : g.leastExponent ≤ f.leastExponent
  units_le : f.units f.infinityBits <<< (f.leastExponent - g.leastExponent).toNat ≤ g.units g.infinityBits

theorem half_embeds_single : Embeds half single := by
  constructor <;> decide +kernel

theorem bfloat_embeds_single : Embeds bfloat single := by
  constructor <;> decide +kernel

theorem single_embeds_double : Embeds single double := by
  constructor <;> decide +kernel

namespace Embeds

variable (h : Embeds f g)
include h

/-- A significand needs no more places in the wider format. -/
theorem exists_units (ha : a < f.infinityBits) : ∃ b < g.infinityBits,
    g.units b = f.units a <<< (f.leastExponent - g.leastExponent).toNat := by
  have hunits : f.units a < f.units f.infinityBits := f.units_strictMono ha
  have hle := h.units_le
  generalize (f.leastExponent - g.leastExponent).toNat = d at hle ⊢
  obtain ⟨s, hs, -⟩ := f.magnitude_eq a
  obtain ⟨b, hb⟩ : ∃ b, g.units b = f.units a <<< d := by
    apply exists_units_eq
    rcases Nat.eq_zero_or_pos (f.units a) with h0 | hpos
    · rw [h0]
      simp
    · have hplace : g.lastPlace (f.units a <<< d) ≤ f.lastPlace (f.units a) + d := by
        have := h.fractionBits_le
        unfold lastPlace
        rw [Nat.shiftLeft_eq, log2_mul_two_pow hpos.ne']
        omega
      refine Nat.dvd_trans (Nat.pow_dvd_pow 2 hplace) ⟨s, ?_⟩
      conv_lhs => rw [hs]
      rw [Nat.shiftLeft_eq, Nat.mul_assoc, ← Nat.pow_add, Nat.mul_comm]
  refine ⟨b, g.units_strictMono.lt_iff_lt.1 (hb ▸ lt_of_lt_of_le ?_ hle), hb⟩
  rw [Nat.shiftLeft_eq, Nat.shiftLeft_eq]
  exact Nat.mul_lt_mul_of_pos_right hunits (Nat.two_pow_pos d)

end Embeds

end Format

/-! ### Rounding a number of the format -/

private theorem divNearestEven_mul (n : Nat) {d : Nat} (hd : 0 < d) : divNearestEven (n * d) d = n := by
  simp [divNearestEven, Nat.mul_div_cancel _ hd, hd]

private theorem leadingExponent_one {n : Nat} (hn : n ≠ 0) : leadingExponent n 1 = n.log2 := by
  have hlog : Nat.log2 1 = 0 := by decide
  have hle : 1 <<< n.log2 ≤ n := by
    rw [Nat.one_shiftLeft]
    exact Nat.log2_self_le hn
  simp [leadingExponent, hlog, hle]

namespace Binary

open Format

variable {f g : Format}

/-- Rounding a number of the format yields its own magnitude. -/
theorem roundMagnitude_eq {a n : Nat} {e : Int} (ha : a ≤ f.infinityBits)
    (h : n <<< (e - f.leastExponent).toNat = f.units a <<< (-(e - f.leastExponent)).toNat) :
    roundMagnitude f n 1 e = a := by
  obtain ⟨s, hs, hsa⟩ := f.magnitude_eq a
  by_cases hn : n = 0
  · rw [hn, Nat.zero_shiftLeft, Nat.shiftLeft_eq] at h
    have hu := (Nat.mul_eq_zero.1 h.symm).resolve_right (Nat.two_pow_pos _).ne'
    rw [hn, units_eq_zero.1 hu]
    rfl
  · have hu : f.units a ≠ 0 := fun hu => hn (by simpa [hu, Nat.shiftLeft_eq, Nat.mul_eq_zero] using h)
    set k := f.lastPlace (f.units a) with hk
    have hlog : (n.log2 : Int) + e = (f.units a).log2 + f.leastExponent := by
      have := congrArg Nat.log2 h
      rw [Nat.shiftLeft_eq, Nat.shiftLeft_eq, log2_mul_two_pow hn, log2_mul_two_pow hu] at this
      omega
    have hplace : max ((n.log2 : Int) + e - f.fractionBits) f.leastExponent = f.leastExponent + k := by
      rw [hlog, hk, lastPlace]
      omega
    -- the significand is whole, because the last place of the result is that of the number
    have hwhole : n <<< (e - (f.leastExponent + k)).toNat = s <<< (-(e - (f.leastExponent + k))).toNat := by
      rw [hs, ← Nat.shiftLeft_eq, ← Nat.shiftLeft_add] at h
      exact shiftLeft_eq_of_sub_eq h (by push_cast; omega)
    unfold roundMagnitude
    simp only [if_neg hn, leadingExponent_one hn, hplace, hwhole]
    rw [Nat.shiftLeft_eq s, Nat.one_shiftLeft, divNearestEven_mul _ (Nat.two_pow_pos _), Nat.shiftLeft_eq]
    rw [show (f.leastExponent + (k : Int) - f.leastExponent).toNat = k by omega, hsa, Nat.min_eq_right ha]

end Binary

end StridedTensor
