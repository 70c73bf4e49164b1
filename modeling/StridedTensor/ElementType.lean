import StridedTensor.Binary.Format

/-!
# Element types

The thirteen kinds of element a tensor or a scalar can hold. Each has a width in bits, which is what the bit
pattern of one value needs, and a size in bytes, which is what it takes in memory. The two differ for `bool`
only: one bit of information in one byte.
-/

namespace StridedTensor

inductive ElementType
  | f16 | f32 | f64
  | i8 | i16 | i32 | i64
  | u8 | u16 | u32 | u64
  | bool | bf16
  deriving DecidableEq, Repr

inductive NumericClass
  | float | signed | unsigned | bool
  deriving DecidableEq, Repr

def NumericClass.name : NumericClass → String
  | float => "Float"
  | signed => "Signed"
  | unsigned => "Unsigned"
  | bool => "Bool"

namespace ElementType

def all : List ElementType :=
  [f16, f32, f64, i8, i16, i32, i64, u8, u16, u32, u64, bool, bf16]

def name : ElementType → String
  | f16 => "f16" | f32 => "f32" | f64 => "f64"
  | i8 => "i8" | i16 => "i16" | i32 => "i32" | i64 => "i64"
  | u8 => "u8" | u16 => "u16" | u32 => "u32" | u64 => "u64"
  | bool => "bool" | bf16 => "bf16"

/-- Bytes that one element takes in memory. -/
def size : ElementType → Nat
  | i8 | u8 | bool => 1
  | f16 | bf16 | i16 | u16 => 2
  | f32 | i32 | u32 => 4
  | f64 | i64 | u64 => 8

def alignment (t : ElementType) : Nat := t.size

/-- Bits that tell the values of the type apart. -/
def width : ElementType → Nat
  | bool => 1
  | i8 | u8 => 8
  | f16 | bf16 | i16 | u16 => 16
  | f32 | i32 | u32 => 32
  | f64 | i64 | u64 => 64

def numericClass : ElementType → NumericClass
  | f16 | f32 | f64 | bf16 => .float
  | i8 | i16 | i32 | i64 => .signed
  | u8 | u16 | u32 | u64 => .unsigned
  | bool => .bool

def isFloat (t : ElementType) : Bool := t.numericClass == .float

def isSigned (t : ElementType) : Bool := t.numericClass == .signed

def isUnsigned (t : ElementType) : Bool := t.numericClass == .unsigned

def isBool (t : ElementType) : Bool := t.numericClass == .bool

/-- Signed and unsigned integers; booleans are not integers. -/
def isInteger (t : ElementType) : Bool := t.isSigned || t.isUnsigned

theorem size_pos (t : ElementType) : 0 < t.size := by
  cases t <;> decide

end ElementType

inductive FloatType
  | f16 | bf16 | f32 | f64
  deriving DecidableEq, Repr

namespace FloatType

def element : FloatType → ElementType
  | f16 => .f16
  | bf16 => .bf16
  | f32 => .f32
  | f64 => .f64

def format : FloatType → Format
  | f16 => .half
  | bf16 => .bfloat
  | f32 => .single
  | f64 => .double

/-- The format a kernel computes in. Only `f64` needs more than single precision. -/
def accumulator : FloatType → Format
  | f64 => .double
  | f16 | bf16 | f32 => .single

theorem width_element (t : FloatType) : t.element.width = t.format.width := by
  cases t <;> rfl

end FloatType

def ElementType.float? : ElementType → Option FloatType
  | f16 => some .f16
  | bf16 => some .bf16
  | f32 => some .f32
  | f64 => some .f64
  | _ => none

theorem FloatType.float?_element (t : FloatType) : t.element.float? = some t := by
  cases t <;> rfl

inductive IndexType
  | i32 | i64
  deriving DecidableEq, Repr

def IndexType.element : IndexType → ElementType
  | i32 => .i32
  | i64 => .i64

def ElementType.index? : ElementType → Option IndexType
  | i32 => some .i32
  | i64 => some .i64
  | _ => none

end StridedTensor
