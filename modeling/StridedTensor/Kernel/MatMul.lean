import StridedTensor.Kernel.Elementwise

/-!
# Matrix multiplication

`C = alpha * A * B + beta * C` for row-major matrices. Both factors are read in full before the first cell of `C`
is written, and each cell of `C` is read before it is written, so `C` may share bytes with either factor.
-/

namespace StridedTensor

namespace Kernel

/-- The extents `m`, `k` and `n` of `A : m × k`, `B : k × n` and `C : m × n`. -/
structure GemmExtents where
  m : Nat
  k : Nat
  n : Nat

def checkGemm (a b c : Tensor) : Result (FloatType × GemmExtents) := do
  checkOperand a
  checkOperand b
  checkOperand c
  let t ← checkFloat a
  checkType a b
  checkType a c
  match a.shape.toList, b.shape.toList with
  | [m, k], [k', n] =>
    if k ≠ k' then Result.reject (.shape a.shape b.shape)
    else
      let expected : Shape ← Dims.ofList [m, n]
      if c.shape ≠ expected then Result.reject (.shape c.shape expected) else return (t, ⟨m, k, n⟩)
  | _, _ => Result.reject (.shape a.shape b.shape)

def dot (t : FloatType) (a b : Array (Binary t.format)) (e : GemmExtents) (i j : Nat) :
    Result (Binary t.accumulator) :=
  (List.range e.k).foldlM (fun sum x => do
    let left ← (Operand.elements a).get #[] (i * e.k + x)
    let right ← (Operand.elements b).get #[] (x * e.n + j)
    return sum.add ((t.widen left).mul (t.widen right))) (Binary.zero false)

/-- The cells of the output, row by row, each computed from the factors and from what it held before. Without
`beta` what it held is not looked at, even if it is a NaN. -/
def gemmCells (t : FloatType) (alpha : Binary t.accumulator) (a b : Array (Binary t.format))
    (beta : Option (Binary t.accumulator)) (e : GemmExtents) (c : Array (Binary t.format)) :
    Result (Array (Binary t.format)) :=
  ((List.range e.m).flatMap fun i => (List.range e.n).map fun j => (i, j)).foldlM (fun c (i, j) => do
    let product := alpha.mul (← dot t a b e i j)
    let value ← match beta with
      | some beta => (product.add <| beta.mul <| t.widen ·) <$> Operand.output.get c (i * e.n + j)
      | none => pure product
    put c (i * e.n + j) (t.narrow value)) c

end Kernel

namespace Context

open Kernel

def gemm (ctx : Context) (alpha : Binary .double) (a b : Tensor) (beta : Binary .double) (c : Tensor) :
    Result Unit × Context :=
  let plan := do unlessEmpty c (← checkGemm a b c)
  ctx.runKernel plan fun (t, extents) =>
    match (do ctx.validate a; ctx.validate b) with
    | .error e => (.error e, ctx)
    | .ok _ =>
      ctx.writeElements t c fun arena buffer => do
        let a ← resolve t arena buffer a c false
        let b ← resolve t arena buffer b c false
        let beta := if beta.same (Binary.zero false) then none else some (t.ofDouble beta)
        return gemmCells t (t.ofDouble alpha) a.toArray b.toArray beta extents

def matmul (ctx : Context) (a b c : Tensor) : Result Unit × Context :=
  ctx.gemm (Binary.ofInt .double 1) a b (Binary.zero false) c

end Context

end StridedTensor
