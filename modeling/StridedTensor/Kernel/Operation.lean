import StridedTensor.Binary.Arithmetic
import StridedTensor.Binary.Elementary
import StridedTensor.ElementType

/-!
# Operations of the kernels

What a kernel does to single numbers. Elements are widened to an accumulator format, computed with there, and
narrowed again when they are stored; every step is rounded in the accumulator format.
-/

namespace StridedTensor

/-! ### Elements and accumulators -/

namespace FloatType

def widen : (t : FloatType) → Binary t.format → Binary t.accumulator
  | f16, x => x.convert .single
  | bf16, x => x.convert .single
  | f32, x => x
  | f64, x => x

def narrow : (t : FloatType) → Binary t.accumulator → Binary t.format
  | f16, x => x.convert .half
  | bf16, x => x.convert .bfloat
  | f32, x => x
  | f64, x => x

def ofDouble : (t : FloatType) → Binary .double → Binary t.accumulator
  | f16, x => x.convert .single
  | bf16, x => x.convert .single
  | f32, x => x.convert .single
  | f64, x => x

def toDouble : (t : FloatType) → Binary t.accumulator → Binary .double
  | f16, x => x.convert .double
  | bf16, x => x.convert .double
  | f32, x => x.convert .double
  | f64, x => x

end FloatType

def IndexType.ofPosition (t : IndexType) (n : Nat) : BitVec t.element.width := BitVec.ofNat _ n

/-! ### Element by element -/

inductive UnaryOp
  | neg | abs | exp | log | sqrt | sin | cos | tanh | relu | sigmoid
  deriving DecidableEq, Repr

namespace UnaryOp

variable {f : Format}

def all : List UnaryOp := [neg, abs, exp, log, sqrt, sin, cos, tanh, relu, sigmoid]

def name : UnaryOp → String
  | neg => "neg"
  | abs => "abs"
  | exp => "exp"
  | log => "log"
  | sqrt => "sqrt"
  | sin => "sin"
  | cos => "cos"
  | tanh => "tanh"
  | relu => "relu"
  | sigmoid => "sigmoid"

def apply (op : UnaryOp) (x : Binary f) : Binary f :=
  match op with
  | neg => x.neg
  | abs => x.abs
  | exp => x.exp
  | log => x.log
  | sqrt => x.sqrt
  | sin => x.sin
  | cos => x.cos
  | tanh => x.tanh
  | relu => if (Binary.zero false).lt x then x else Binary.zero false
  | sigmoid =>
    let one := Binary.ofInt f 1
    one.div (one.add x.neg.exp)

end UnaryOp

inductive BinaryOp
  | add | sub | mul | div
  deriving DecidableEq, Repr

namespace BinaryOp

variable {f : Format}

def all : List BinaryOp := [add, sub, mul, div]

def name : BinaryOp → String
  | add => "add"
  | sub => "sub"
  | mul => "mul"
  | div => "div"

def apply (op : BinaryOp) (x y : Binary f) : Binary f :=
  match op with
  | add => x.add y
  | sub => x.sub y
  | mul => x.mul y
  | div => x.div y

end BinaryOp

/-! ### Reductions -/

inductive ReduceOp
  | sum | mean | max | min | prod
  deriving DecidableEq, Repr

namespace ReduceOp

variable {f : Format}

def all : List ReduceOp := [sum, mean, max, min, prod]

def name : ReduceOp → String
  | sum => "sum"
  | mean => "mean"
  | max => "max"
  | min => "min"
  | prod => "prod"

def identity (op : ReduceOp) (f : Format) : Binary f :=
  match op with
  | sum => Binary.zero false
  | mean => Binary.zero false
  | prod => Binary.ofInt f 1
  | max => Binary.infinity true
  | min => Binary.infinity false

/-- Takes one more number into account. A NaN is never greater or less than what was found so far. -/
def combine (op : ReduceOp) (acc x : Binary f) : Binary f :=
  match op with
  | sum => acc.add x
  | mean => acc.add x
  | prod => acc.mul x
  | max => if acc.lt x then x else acc
  | min => if x.lt acc then x else acc

/-- Reduces the numbers from left to right; of no numbers the result is zero. -/
def reduce (op : ReduceOp) (xs : List (Binary f)) : Binary f :=
  match op, xs with
  | _, [] => Binary.zero false
  | mean, xs => (xs.foldl mean.combine (mean.identity f)).div (Binary.ofInt f xs.length)
  | op, xs => xs.foldl op.combine (op.identity f)

/-- The position of the first of the greatest numbers. A NaN is passed over, unless it comes first. -/
def argmax : List (Binary f) → Nat
  | [] => 0
  | x :: xs => (xs.foldl step (0, 0, x)).2.1
where
  /-- The number of elements passed after the first, the best position and the number there. -/
  step : Nat × Nat × Binary f → Binary f → Nat × Nat × Binary f
    | (n, i, best), x => if best.lt x then (n + 1, n + 1, x) else (n + 1, i, best)

end ReduceOp

end StridedTensor
