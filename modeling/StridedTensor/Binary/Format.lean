/-!
# Binary floating-point formats

A format is given by the number of its exponent bits and of its fraction bits. A pattern has a sign bit, then
the exponent, then the fraction. `Binary f` is a bit pattern of the format `f`; `Binary.value` says which number
it stands for. Patterns without their sign bit are ordered as the numbers they stand for, which is why
comparison needs no arithmetic.
-/

namespace StridedTensor

structure Format where
  exponentBits : Nat
  fractionBits : Nat
  deriving DecidableEq, Repr

namespace Format

def half : Format := ⟨5, 10⟩

/-- The upper half of a single precision pattern. -/
def bfloat : Format := ⟨8, 7⟩

def single : Format := ⟨8, 23⟩

def double : Format := ⟨11, 52⟩

def width (f : Format) : Nat := f.exponentBits + f.fractionBits + 1

def bias (f : Format) : Nat := (1 <<< (f.exponentBits - 1)) - 1

/-- The exponent of the last place of the subnormal numbers: every finite number of the format is a multiple
of two to this power. -/
def leastExponent (f : Format) : Int := 1 - (f.bias : Int) - (f.fractionBits : Int)

/-- The pattern of plus infinity. Larger magnitudes are NaNs. -/
def infinityBits (f : Format) : Nat := ((1 <<< f.exponentBits) - 1) <<< f.fractionBits

/-- The fraction bit that every NaN an operation yields has set. -/
def quietBit (f : Format) : Nat := 1 <<< (f.fractionBits - 1)

end Format

structure Binary (f : Format) where
  bits : BitVec f.width
  deriving DecidableEq

/-- What a bit pattern stands for: `finite s m e` is `m * 2 ^ e` with the sign `s`, which is `true` for minus. -/
inductive Binary.Value
  | nan
  | infinity (negative : Bool)
  | finite (negative : Bool) (significand : Nat) (exponent : Int)
  deriving DecidableEq, Repr

namespace Binary

variable {f : Format}

def ofNat (f : Format) (n : Nat) : Binary f := ⟨BitVec.ofNat f.width n⟩

def toNat (x : Binary f) : Nat := x.bits.toNat

def isNegative (x : Binary f) : Bool := x.bits.msb

def magnitude (x : Binary f) : Nat := x.toNat % (1 <<< (f.width - 1))

def ofMagnitude (negative : Bool) (magnitude : Nat) : Binary f :=
  ofNat f ((if negative then 1 <<< (f.width - 1) else 0) + magnitude)

def zero (negative : Bool) : Binary f := ofMagnitude negative 0

def infinity (negative : Bool) : Binary f := ofMagnitude negative f.infinityBits

def invalid : Binary f := ofMagnitude true (f.infinityBits + f.quietBit)

def isNaN (x : Binary f) : Bool := f.infinityBits < x.magnitude

/-- The significand and exponent that a finite magnitude stands for. The leading one of a normal number is not
stored. -/
def unpack (f : Format) (magnitude : Nat) : Nat × Int :=
  let exponent := magnitude / (1 <<< f.fractionBits)
  let fraction := magnitude % (1 <<< f.fractionBits)
  if exponent = 0 then (fraction, f.leastExponent)
  else ((1 <<< f.fractionBits) + fraction, f.leastExponent + (exponent : Int) - 1)

def value (x : Binary f) : Value :=
  if x.isNaN then .nan
  else if x.magnitude = f.infinityBits then .infinity x.isNegative
  else
    let (significand, exponent) := unpack f x.magnitude
    .finite x.isNegative significand exponent

/-! ### Sign -/

def neg (x : Binary f) : Binary f := ofMagnitude (!x.isNegative) x.magnitude

def abs (x : Binary f) : Binary f := ofMagnitude false x.magnitude

/-! ### Order -/

/-- The place of a pattern that is not a NaN among all of them. Both zeros share the place `0`. -/
def rank (x : Binary f) : Int := if x.isNegative then -(x.magnitude : Int) else x.magnitude

/-- The order of the numbers; a NaN is neither less than a pattern nor greater. -/
def lt (x y : Binary f) : Bool := !x.isNaN && !y.isNaN && decide (x.rank < y.rank)

/-- Equality of the numbers: the two zeros are equal, and a NaN differs from every pattern. -/
def same (x y : Binary f) : Bool := !x.isNaN && !y.isNaN && decide (x.rank = y.rank)

def quiet (x : Binary f) : Binary f := ofNat f (x.toNat ||| f.quietBit)

end Binary

end StridedTensor
