import StridedTensor.Binary.Format

/-!
# Rounding

Every operation computes its exact result first and rounds it once, to the nearest number of the format and to
the even one of two that are equally near. A result is handed over as a quotient of two numbers times a power of
two. What lies beyond the largest number becomes infinite, what lies below the normal numbers loses precision
step by step.
-/

namespace StridedTensor

/-- The quotient rounded to the nearest number, a half to the even one. -/
def divNearestEven (n d : Nat) : Nat :=
  let q := n / d
  let r := n % d
  if 2 * r < d then q
  else if d < 2 * r then q + 1
  else q + q % 2

/-- The exponent of the leading binary digit of `n / d`, for positive `n` and `d`. -/
def leadingExponent (n d : Nat) : Int :=
  let k : Int := (n.log2 : Int) - (d.log2 : Int)
  if d <<< k.toNat ≤ n <<< (-k).toNat then k else k - 1

/-- The largest `r` of at most `digits` binary digits above `r₀` with `r * r ≤ n`, found digit by digit. -/
def sqrtFloor (n : Nat) : (digits : Nat) → (r₀ : Nat) → Nat
  | 0, r => r
  | k + 1, r =>
    let s := r + (1 <<< k)
    sqrtFloor n k (if s * s ≤ n then s else r)

namespace Binary

variable {f : Format}

/-- The magnitude of the format nearest to `n / d * 2 ^ e`. The exponent field counts the steps of the last place
above `leastExponent`, so adding the rounded significand to it also carries a round-up into the next exponent. -/
def roundMagnitude (f : Format) (n d : Nat) (e : Int) : Nat :=
  if n = 0 then 0
  else
    let place := max (leadingExponent n d + e - (f.fractionBits : Int)) f.leastExponent
    let shift := e - place
    let significand := divNearestEven (n <<< shift.toNat) (d <<< (-shift).toNat)
    min f.infinityBits (((place - f.leastExponent).toNat <<< f.fractionBits) + significand)

def round (negative : Bool) (n d : Nat) (e : Int) : Binary f :=
  ofMagnitude negative (roundMagnitude f n d e)

/-- The nearest number to `z * 2 ^ e`; zero is positive. -/
def roundInt (z : Int) (e : Int) : Binary f := round (decide (z < 0)) z.natAbs 1 e

end Binary

end StridedTensor
