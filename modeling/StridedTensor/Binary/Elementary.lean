import StridedTensor.Binary.Arithmetic

/-!
# Elementary functions

Exponential, logarithm, sine, cosine and hyperbolic tangent. Each is computed as an integer multiple of
`2 ^ (-p)` from a power series, with a `p` far beyond the digits of the result, and rounded once. The largest
error is below `2 ^ (-250)` of the result, so the rounding goes wrong only for an argument whose exact image is
that close to the middle between two numbers of the format.
-/

namespace StridedTensor

namespace FixedPoint

/-- The sum `Σ ± 1 / ((2 i + 1) k ^ (2 i + 1))` in units of `2 ^ (-p)`: the inverse hyperbolic tangent of `1 / k`,
or its inverse tangent when the signs alternate. -/
def inverseSeries (alternating : Bool) (p k : Nat) : Int :=
  go p ((1 <<< p) / k) 1 1 0
where
  go : Nat → Nat → Nat → Int → Int → Int
    | 0, _, _, _, sum => sum
    | fuel + 1, power, n, sign, sum =>
      if power = 0 then sum
      else go fuel (power / (k * k)) (n + 2) (if alternating then -sign else sign) (sum + sign * (power / n : Nat))

/-- The sum `Σ x ^ (2 i + 1) / (2 i + 1)`, the inverse hyperbolic tangent of a small `x`. -/
def artanh (p : Nat) (x : Int) : Int :=
  go p x 1 0
where
  go : Nat → Int → Nat → Int → Int
    | 0, _, _, sum => sum
    | fuel + 1, power, n, sum =>
      if power = 0 then sum
      else go fuel ((power * (x * x)).tdiv (1 <<< (2 * p) : Nat)) (n + 2) (sum + power.tdiv n)

/-- The sum `Σ term * a ^ i / ((n + 1) (n + 2) ⋯)` with `step` factors of the factorial at each `i`. -/
def factorialSeries (p : Nat) (a : Int) (step : Nat) :
    (fuel : Nat) → (term : Int) → (n : Nat) → (sum : Int) → Int
  | 0, _, _, sum => sum
  | fuel + 1, term, n, sum =>
    if term = 0 then sum
    else
      let divisor := if step = 1 then n + 1 else (n + 1) * (n + 2)
      factorialSeries p a step fuel ((term * a).tdiv (divisor <<< p : Nat)) (n + step) (sum + term)

def exp (p : Nat) (x : Int) : Int := factorialSeries p x 1 p (1 <<< p : Nat) 0 0

def sin (p : Nat) (x : Int) : Int := factorialSeries p (-(x * x).tdiv (1 <<< p : Nat)) 2 p x 1 0

def cos (p : Nat) (x : Int) : Int := factorialSeries p (-(x * x).tdiv (1 <<< p : Nat)) 2 p (1 <<< p : Nat) 0 0

def logTwo (p : Nat) : Int := 2 * inverseSeries false p 3

def rightAngle (p : Nat) : Int := 8 * inverseSeries true p 5 - 2 * inverseSeries true p 239

/-- The number `m * 2 ^ e` in units of `2 ^ (-p)`. -/
def ofScaled (p : Nat) (m : Int) (e : Int) : Int :=
  let shift := e + p
  (m <<< shift.toNat).tdiv (1 <<< (-shift).toNat : Nat)

end FixedPoint

namespace Binary

open FixedPoint

variable {f : Format}

def guardPlaces : Nat := 320

/-- The exponential of `x` units of `2 ^ (-p)` as `(n, k)`, standing for `n * 2 ^ (k - p)`: the argument less `k`
times the logarithm of two is between zero and that logarithm. -/
def expParts (p : Nat) (x : Int) : Nat × Int :=
  let k := x / logTwo p
  ((FixedPoint.exp p (x - k * logTwo p)).toNat, k)

def exp (x : Binary f) : Binary f :=
  match x.value with
  | .nan => x.quiet
  | .infinity s => if s then zero false else x
  | .finite s m e =>
    -- beyond `2 ^ 11` the result is out of the range of every format
    if m ≠ 0 ∧ 11 ≤ (m.log2 : Int) + e then if s then zero false else infinity false
    else
      let (n, k) := expParts guardPlaces (ofScaled guardPlaces (signed s m) e)
      round false n 1 (k - guardPlaces)

def log (x : Binary f) : Binary f :=
  match x.value with
  | .nan => x.quiet
  | .infinity s => if s then invalid else x
  | .finite s m e =>
    if m = 0 then infinity true
    else if s then invalid
    else
      -- a power of two times a number `t` between one and two, whose logarithm is `2 artanh ((t - 1) / (t + 1))`
      let p := guardPlaces
      let one := 1 <<< m.log2
      let fraction := 2 * artanh p (((m - one) <<< p) / (m + one) : Nat)
      roundInt (((m.log2 : Int) + e) * logTwo p + fraction) (-p)

/-- The argument less a multiple `q` of the right angle, and `q`. The places grow with the distance of the
exponent from zero. -/
def reduceAngle (p : Nat) (x : Int) : Int × Int :=
  let q := (2 * x + rightAngle p) / (2 * rightAngle p)
  (x - q * rightAngle p, q)

/-- The sine of the angle plus `quarters` right angles. -/
def sinShifted (quarters : Int) (s : Bool) (m : Nat) (e : Int) : Binary f :=
  let p := guardPlaces + ((m.log2 : Int) + e).natAbs
  let (r, q) := reduceAngle p (ofScaled p (signed s m) e)
  let quadrant := (q + quarters) % 4
  let magnitude := if quadrant % 2 = 0 then FixedPoint.sin p r else FixedPoint.cos p r
  roundInt (if quadrant < 2 then magnitude else -magnitude) (-p)

def sin (x : Binary f) : Binary f :=
  match x.value with
  | .nan => x.quiet
  | .infinity _ => invalid
  | .finite s m e => if m = 0 then x else sinShifted 0 s m e

def cos (x : Binary f) : Binary f :=
  match x.value with
  | .nan => x.quiet
  | .infinity _ => invalid
  | .finite s m e => if m = 0 then roundInt 1 0 else sinShifted 1 s m e

def tanh (x : Binary f) : Binary f :=
  match x.value with
  | .nan => x.quiet
  | .infinity s => round s 1 1 0
  | .finite s m e =>
    if m = 0 then x
    -- beyond `2 ^ 6` the result is one in every format
    else if 6 ≤ (m.log2 : Int) + e then round s 1 1 0
    else
      let p := guardPlaces + ((m.log2 : Int) + e).natAbs
      let (n, k) := expParts p (ofScaled p m (e + 1))
      -- the quotient `(e ^ (2 t) - 1) / (e ^ (2 t) + 1)` for the magnitude `t`
      let square := n <<< k.toNat
      round s (square - (1 <<< p)) (square + (1 <<< p)) 0

end Binary

end StridedTensor
