import StridedTensor.Kernel.Elementwise

/-!
# Reductions

A tensor is reduced to one scalar, or each of its rows along the last dimension to one element of an output. The
operand is read in full before the first element is written, whatever they share.
-/

namespace StridedTensor

namespace Kernel

def rowsOf (x : Tensor) : Result (Nat × Nat) :=
  match x.shape.toList.getLast? with
  | some inner => do return (← Result.ofWord? (Word.product? x.shape.toList.dropLast), inner)
  | none => Result.reject (.dim 0 0)

def checkRows (x output : Tensor) : Result (FloatType × Nat × Nat) := do
  checkOperand x
  checkOperand output
  let t ← checkFloat x
  let (outer, inner) ← rowsOf x
  let n ← output.numel
  if n ≠ outer then Result.reject (.count n outer) else return (t, outer, inner)

end Kernel

namespace Context

open Kernel

/-- The reduction of all elements; zero if there are none. A lenient context yields the default scalar where a
precondition fails. -/
def reduceAll (c : Context) (op : ReduceOp) (x : Tensor) : Result Scalar :=
  c.lenient default do
    checkOperand x
    let t ← checkFloat x
    if (← x.numel) = 0 then return Scalar.zero x.type
    else
      match ← c.check x with
      | none => Result.halt .access
      | some b =>
        let x ← borrow t b (← x.span)
        return Scalar.ofBinary t (t.narrow (op.reduce (x.toArray.toList.map t.widen)))

/-- Writes one element of type `type` for each row of `x`: the pattern that `f` yields, or zero if the rows are
empty. -/
def writeRows (c : Context) (t : FloatType) (type : ElementType) (x output : Tensor) (inner : Nat)
    (f : List (Binary t.format) → Nat) : Result Unit × Context :=
  match c.validate x with
  | .error e => (.error e, c)
  | .ok _ =>
    c.withOutput output fun arena b => do
      let x ← resolve t arena b x output false
      let (span, bytes) ← outputBytes type b output
      let count := bytes.length / type.size
      let patterns :=
        if inner = 0 then List.replicate count 0
        else ((rows inner x.toArray.toList).take count).map f
      return b.contents.write span.start (store type patterns)

def reduceLast (c : Context) (op : ReduceOp) (x output : Tensor) : Result Unit × Context :=
  let plan := do
    let (t, outer, inner) ← checkRows x output
    checkType x output
    return if outer = 0 then none else some (t, inner)
  c.runKernel plan fun (t, inner) =>
    c.writeRows t t.element x output inner fun row => (t.narrow (op.reduce (row.map t.widen))).toNat

/-- The position of the greatest element of each row of `x` along the last dimension: the first of those that are
equally great, and zero for an empty row. -/
def argmax (c : Context) (x output : Tensor) : Result Unit × Context :=
  let plan := do
    let (t, outer, inner) ← checkRows x output
    let index ← checkIndex output
    return if outer = 0 then none else some (t, index, inner)
  c.runKernel plan fun (t, index, inner) =>
    c.writeRows t index.element x output inner fun row =>
      (index.ofPosition (ReduceOp.argmax (row.map t.widen))).toNat

end Context

end StridedTensor
