import StridedTensor.Binary.Arithmetic
import StridedTensor.Binary.Decimal
import StridedTensor.Bytes
import StridedTensor.Error

/-!
# Scalars

A scalar is one value of some element type, kept as its bit pattern. The pattern of a boolean has one bit; that
of any other type fills the bytes of an element, so reading and writing bytes only has to order them.
-/

namespace StridedTensor

/-- The pattern that the bytes of an element hold. Every byte but zero is true. -/
def ElementType.decode (t : ElementType) (bytes : List UInt8) : BitVec t.width :=
  let n := Bytes.toNat bytes
  BitVec.ofNat t.width (if t = .bool then (n != 0).toNat else n)

def ElementType.encode (t : ElementType) (bits : BitVec t.width) : List UInt8 := Bytes.ofNat t.size bits.toNat

structure Scalar where
  type : ElementType
  bits : BitVec type.width
  deriving DecidableEq

namespace Scalar

/-- The value of type `t` whose pattern is `n`, without the bits that do not fit. -/
def ofNat (t : ElementType) (n : Nat) : Scalar := ⟨t, BitVec.ofNat t.width n⟩

def ofInt (t : ElementType) (z : Int) : Scalar := ⟨t, BitVec.ofInt t.width z⟩

def ofBool (b : Bool) : Scalar := ofNat .bool b.toNat

def ofBinary (t : FloatType) (x : Binary t.format) : Scalar := ofNat t.element x.toNat

def pattern (s : Scalar) : Nat := s.bits.toNat

def toInt (s : Scalar) : Int := if s.type.isSigned then s.bits.toInt else s.bits.toNat

def isInteger (s : Scalar) : Bool := s.type.isInteger

def isFloat (s : Scalar) : Bool := s.type.isFloat

/-- Floats and signed integers. -/
def isSigned (s : Scalar) : Bool := s.type.isSigned || s.isFloat

def isLogical (s : Scalar) : Bool := s.type.isBool

def zeroF32 : Scalar := ofNat .f32 0

def oneF32 : Scalar := ofBinary .f32 (Binary.ofInt .single 1)

def zeroI32 : Scalar := ofInt .i32 0

def oneI32 : Scalar := ofInt .i32 1

instance : Inhabited Scalar := ⟨zeroF32⟩

/-- Equality of values of one type: floats compare as numbers. -/
def same (a b : Scalar) : Bool :=
  a.type == b.type &&
    match a.type.float? with
    | some t => (Binary.ofNat t.format a.pattern).same (Binary.ofNat t.format b.pattern)
    | none => a.pattern == b.pattern

/-! ### Bytes -/

def ofBytes (t : ElementType) (bytes : List UInt8) : Result Scalar :=
  if bytes.length ≠ t.size then Result.reject (.bytes t bytes.length) else .ok ⟨t, t.decode bytes⟩

def toBytes (s : Scalar) : List UInt8 := s.type.encode s.bits

/-- The destination after the value was written over it, which has to be as long as an element. -/
def writeOver (s : Scalar) (destination : List UInt8) : Result Unit × List UInt8 :=
  if destination.length ≠ s.type.size then (Result.reject (.bytes s.type destination.length), destination)
  else (.ok (), s.toBytes)

/-! ### Text -/

/-- The number without its type. Half-width floats are written like the single precision numbers they equal. -/
def valueText (s : Scalar) : String :=
  match s.type.float? with
  | some .f64 => (Binary.ofNat .double s.pattern).display
  | some .f32 => (Binary.ofNat .single s.pattern).display
  | some t => ((Binary.ofNat t.format s.pattern).convert .single).display
  | none => if s.isLogical then toString (s.pattern != 0) else toString s.toInt

def text (s : Scalar) : String := s.type.name ++ "(" ++ s.valueText ++ ")"

end Scalar

end StridedTensor
