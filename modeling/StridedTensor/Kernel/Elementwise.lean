import StridedTensor.Kernel.Operand
import StridedTensor.Scalar.Arithmetic

/-!
# Element-wise kernels

A unary kernel maps every element of its operand, a binary one combines two operands position by position. The
second operand may also have a single element, or be a scalar, which then goes with every element of the first.
The output may be one of the operands.
-/

namespace StridedTensor

namespace Kernel

def checkUnary (x output : Tensor) : Result FloatType := do
  checkOperand x
  checkOperand output
  let t ← checkFloat x
  checkType x output
  let (n, m) := (← x.numel, ← output.numel)
  if n ≠ m then Result.reject (.count n m) else return t

/-- The second operand is contiguous, of the type of the first, and has as many elements or one. -/
def checkSecond (x y : Tensor) : Result Unit := do
  checkOperand y
  checkType x y
  let n ← y.numel
  let m ← x.numel
  if n ≠ m ∧ n ≠ 1 then Result.reject (.count n m)

/-- What a kernel is to do, unless the output has no elements. -/
def unlessEmpty {κ : Type} (output : Tensor) (k : κ) : Result (Option κ) := do
  return if (← output.numel) = 0 then none else some k

end Kernel

namespace Context

open Kernel

def unary (c : Context) (op : UnaryOp) (x output : Tensor) : Result Unit × Context :=
  c.runKernel (do unlessEmpty output (← checkUnary x output)) fun t =>
    match c.validate x with
    | .error e => (.error e, c)
    | .ok _ =>
      c.writeElements t output fun arena b => do
        let x ← resolve t arena b x output true
        return updateEach fun output i => do return t.narrow (op.apply (t.widen (← x.get output i)))

def scalarOp (c : Context) (op : BinaryOp) (x : Tensor) (rhs : Scalar) (output : Tensor) :
    Result Unit × Context :=
  c.runKernel (do unlessEmpty output (← checkUnary x output)) fun t =>
    match c.validate x with
    | .error e => (.error e, c)
    | .ok _ =>
      c.writeElements t output fun arena b => do
        let x ← resolve t arena b x output true
        let rhs := t.ofDouble rhs.toDouble
        return updateEach fun output i => do return t.narrow (op.apply (t.widen (← x.get output i)) rhs)

def binary (c : Context) (op : BinaryOp) (x y output : Tensor) : Result Unit × Context :=
  let plan := do
    let t ← checkUnary x output
    checkSecond x y
    unlessEmpty output t
  c.runKernel plan fun t =>
    match (do c.validate x; c.validate y; y.numel) with
    | .error e => (.error e, c)
    | .ok count =>
      c.writeElements t output fun arena b => do
        let x ← resolve t arena b x output true
        let y ← resolve t arena b y output (count != 1)
        return fun output => do
          -- a single element is read before the first write, which might change it
          let single ← if count = 1 then some <$> t.widen <$> y.get output 0 else pure none
          updateEach (fun output i => do
            let lhs := t.widen (← x.get output i)
            let rhs ← match single with
              | some rhs => pure rhs
              | none => t.widen <$> y.get output i
            return t.narrow (op.apply lhs rhs)) output

end Context

end StridedTensor
