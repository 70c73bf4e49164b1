import StridedTensor.Binary.Rounding

/-!
# Arithmetic and conversions of binary floating-point numbers

Sums, products, quotients and square roots, each rounded once from its exact value. A NaN operand is passed on,
the first of two; an operation that has no numerical result, such as the difference of two infinities, yields
`Binary.invalid`.

Widening a format is exact, narrowing rounds once. Integers round to the nearest number of a format; back they
lose their fraction and are clamped to the wanted range.
-/

namespace StridedTensor.Binary

variable {f : Format}

def signed (negative : Bool) (m : Nat) : Int := if negative then -(m : Int) else m

/-- The first NaN of two operands one of which is a NaN. -/
def passNaN (x y : Binary f) : Binary f := if x.isNaN then x.quiet else y.quiet

def add (x y : Binary f) : Binary f :=
  match x.value, y.value with
  | .nan, _ => passNaN x y
  | _, .nan => passNaN x y
  | .infinity s, .infinity t => if s = t then x else invalid
  | .infinity _, .finite _ _ _ => x
  | .finite _ _ _, .infinity _ => y
  | .finite s m d, .finite t n e =>
    let place := min d e
    let sum := signed s (m <<< (d - place).toNat) + signed t (n <<< (e - place).toNat)
    -- a sum that vanishes is positive unless both operands are negative zeros
    if sum = 0 then zero (s && t) else roundInt sum place

def sub (x y : Binary f) : Binary f :=
  if x.isNaN || y.isNaN then passNaN x y else x.add y.neg

def mul (x y : Binary f) : Binary f :=
  match x.value, y.value with
  | .nan, _ => passNaN x y
  | _, .nan => passNaN x y
  | .infinity s, .infinity t => infinity (s != t)
  | .infinity s, .finite t n _ => if n = 0 then invalid else infinity (s != t)
  | .finite s m _, .infinity t => if m = 0 then invalid else infinity (s != t)
  | .finite s m d, .finite t n e => round (s != t) (m * n) 1 (d + e)

def div (x y : Binary f) : Binary f :=
  match x.value, y.value with
  | .nan, _ => passNaN x y
  | _, .nan => passNaN x y
  | .infinity _, .infinity _ => invalid
  | .infinity s, .finite t _ _ => infinity (s != t)
  | .finite s _ _, .infinity t => zero (s != t)
  | .finite s m d, .finite t n e =>
    -- a quotient by zero is infinite, unless the dividend is zero too
    if n = 0 then if m = 0 then invalid else infinity (s != t)
    else round (s != t) m n (d - e)

def sqrt (x : Binary f) : Binary f :=
  match x.value with
  | .nan => x.quiet
  | .infinity s => if s then invalid else x
  | .finite s m e =>
    if m = 0 then x
    else if s then invalid
    else
      let shift := 2 * (f.fractionBits + 3) + (e % 2).toNat
      let n := m <<< shift
      let r := sqrtFloor n (n.log2 / 2 + 1) 0
      -- a root that is not exact must not be mistaken for a number half way between two others
      let sticky := if r * r = n then 0 else 1
      round false (2 * r + sticky) 1 ((e - (shift : Int)) / 2 - 1)

/-! ### Conversions -/

/-- The magnitude of a NaN whose payload is that of `x`, as far as it fits. -/
def nanMagnitude (g : Format) (x : Binary f) : Nat :=
  let payload := x.magnitude - f.infinityBits
  let moved := (payload <<< (g.fractionBits - f.fractionBits)) >>> (f.fractionBits - g.fractionBits)
  g.infinityBits + (moved ||| g.quietBit)

def convert (g : Format) (x : Binary f) : Binary g :=
  match x.value with
  | .nan => ofMagnitude x.isNegative (nanMagnitude g x)
  | .infinity s => infinity s
  | .finite s m e => round s m 1 e

/-- A double without the lower half of its pattern. NaNs are kept. -/
def dropLowHalf (x : Binary .double) : Binary .double :=
  if x.isNaN then x else ofNat .double ((x.toNat >>> 32) <<< 32)

/-- A double in one of the formats of half its width or less, as it is converted in software: the lower half of the
pattern does not take part, so a number that it alone lifts above a tie is rounded as the tie. A processor that converts
by itself rounds the double once, as `convert` does. No theorem depends on which is done: what is said of the result
compares two results of the same conversion, or is about NaNs and numbers whose lower half is zero, where both agree. -/
def ofDouble (g : Format) (x : Binary .double) : Binary g := x.dropLowHalf.convert g

def ofInt (f : Format) (z : Int) : Binary f := roundInt z 0

def toInt (lo hi : Int) (x : Binary f) : Int :=
  match x.value with
  | .nan => 0
  | .infinity s => if s then lo else hi
  | .finite s m e => max lo (min hi (signed s ((m <<< e.toNat) >>> (-e).toNat)))

end StridedTensor.Binary
