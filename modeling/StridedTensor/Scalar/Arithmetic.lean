import StridedTensor.Scalar.Basic

/-!
# Conversion and arithmetic of scalars

A scalar of any type can be converted to any other, at a loss where the target cannot hold the value. Integers are
reduced to the target's width. Floats go through double precision and the 64-bit integers, where they are
truncated and clamped. What loses nothing is left as it is: the conversion of a value to its own type.

Two floats are computed with in double precision, two integers in signed 64-bit arithmetic, whatever their types.
A float and an integer, or a boolean and anything, do not mix.
-/

namespace StridedTensor.Scalar

def toDouble (s : Scalar) : Binary .double :=
  match s.type.float? with
  | some .f64 => Binary.ofNat .double s.pattern
  | some t => (Binary.ofNat t.format s.pattern).convert .double
  | none => Binary.ofInt .double s.toInt

/-- Doubles and integers are rounded from double precision, so integers may be rounded twice. -/
def toSingle (s : Scalar) : Binary .single :=
  match s.type.float? with
  | some .f32 => Binary.ofNat .single s.pattern
  | some .f16 => (Binary.ofNat .half s.pattern).convert .single
  | some .bf16 => (Binary.ofNat .bfloat s.pattern).convert .single
  | _ => s.toDouble.convert .single

/-- The value as a signed 64-bit integer: floats are truncated and clamped, unsigned integers above the largest
one are reduced. -/
def toInt64 (s : Scalar) : Int :=
  if s.isFloat then s.toDouble.toInt (-(1 <<< 63 : Nat)) ((1 <<< 63 : Nat) - 1) else s.toInt.bmod (1 <<< 64)

/-- Whether the value is not zero; a NaN is not. -/
def toBool (s : Scalar) : Bool :=
  if s.isFloat then !s.toDouble.same (Binary.zero false) else s.toInt != 0

def cast (s : Scalar) (t : ElementType) : Scalar :=
  if s.type = t then s
  else
    match t with
    | .f16 => ofBinary .f16 (Binary.ofDouble .half s.toDouble)
    | .bf16 => ofBinary .bf16 (Binary.ofDouble .bfloat s.toDouble)
    | .f32 => ofBinary .f32 s.toSingle
    | .f64 => ofBinary .f64 s.toDouble
    | .u64 => ofInt .u64 (if s.isFloat then s.toDouble.toInt 0 ((1 <<< 64 : Nat) - 1) else s.toInt64)
    | .bool => ofBool s.toBool
    | t => ofInt t s.toInt64

def zero (t : ElementType) : Scalar := (ofInt .i64 0).cast t

/-! ### Arithmetic -/

def promote (a b : Scalar) (float : Binary .double → Binary .double → Binary .double)
    (int : Int → Int → Int) : Result Scalar :=
  if a.isFloat && b.isFloat then .ok (ofBinary .f64 (float a.toDouble b.toDouble))
  else if a.isInteger && b.isInteger then .ok (ofInt .i64 (int a.toInt64 b.toInt64))
  else Result.reject (.type a.type b.type)

def add (a b : Scalar) : Result Scalar := promote a b Binary.add (· + ·)

def sub (a b : Scalar) : Result Scalar := promote a b Binary.sub (· - ·)

def mul (a b : Scalar) : Result Scalar := promote a b Binary.mul (· * ·)

/-- Integer quotients lose their fraction. Division by zero is an error for floats too. -/
def div (a b : Scalar) : Result Scalar :=
  let vanishes := if b.isFloat then b.toDouble.same (Binary.zero false) else b.toInt64 == 0
  let sameClass := (a.isFloat && b.isFloat) || (a.isInteger && b.isInteger)
  if vanishes && sameClass then Result.reject .divisionByZero
  else promote a b Binary.div Int.tdiv

end StridedTensor.Scalar
