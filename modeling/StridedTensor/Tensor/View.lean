import StridedTensor.Tensor.Basic

/-!
# Views of a tensor

A view describes elements of the tensor that it was made from, in the same buffer, and never owns it. Making one
takes no memory and reads none. The operations that make one are values too (`ViewOp`), so that a chain of them is a
list.
-/

namespace StridedTensor

namespace Tensor

def view (t : Tensor) : Tensor := { t with ownership := false }

def withLayout (t : Tensor) (layout : Layout) : Tensor := { t with layout, ownership := false }

/-- The view with the given extents, strides and offset, whatever they are. -/
def asStrided (t : Tensor) (extents strides : List Nat) (offset : Nat) : Result Tensor := do
  let shape : Shape ← Dims.ofList extents
  let strides : Strides ← Dims.ofList strides
  if h : strides.rank = shape.rank then return { t.withLayout ⟨shape, strides, h⟩ with offset }
  else Result.reject (.dim strides.rank shape.rank)

/-- The elements of a contiguous tensor in another shape with as many elements. -/
def reshapeTo (t : Tensor) (shape : Shape) : Result Tensor := do
  if (← shape.numel) ≠ (← t.numel) then Result.reject (.reshape t.shape shape)
  else if !(← t.isContiguous) then Result.reject (.nonContiguous t.shape t.strides)
  else return t.withLayout (← Layout.canonical shape t.type)

def reshape (t : Tensor) (extents : List Nat) : Result Tensor := do t.reshapeTo (← Dims.ofList extents)

def canReshape (t : Tensor) (extents : List Nat) : Result Bool :=
  match (Dims.ofList extents : Result Shape) with
  | .ok shape => do
    if (← Shape.numel shape) = (← t.numel) then t.isContiguous else return false
  | .error _ => return false

def flatten (t : Tensor) : Result Tensor := do t.reshape [← t.numel]

def transpose (t : Tensor) : Tensor := t.withLayout t.layout.transpose

def canSlice (t : Tensor) (dim start stop : Nat) : Bool :=
  dim < t.rank && start ≤ stop && stop ≤ t.shape.entry dim

def slice (t : Tensor) (dim start stop : Nat) : Result Tensor := do
  if !t.canSlice dim start stop then Result.reject (.slice dim start stop t.shape)
  else
    let distance ← Result.ofWord? (Word.mul? start (t.strides.entry dim))
    let offset ← Result.ofWord? (Word.add? t.offset distance)
    return { t.withLayout (t.layout.resize dim (stop - start)) with offset }

def squeeze (t : Tensor) : Tensor := t.withLayout t.layout.squeeze

def squeezeDim (t : Tensor) (dim : Nat) : Result Tensor :=
  if t.rank ≤ dim then Result.reject (.dim dim t.rank)
  else if t.shape.entry dim ≠ 1 then .ok t.view
  else .ok (t.withLayout (t.layout.erase dim))

/-- Adds a dimension of extent one before dimension `dim`, or after the last one. Its stride is that of the
dimension it comes before, or the size of an element at the end. -/
def unsqueeze (t : Tensor) (dim : Nat) : Result Tensor := do
  if t.rank < dim then Result.reject (.dim dim (t.rank + 1))
  else
    let stride := if dim < t.rank then t.strides.entry dim else t.type.size
    return t.withLayout (← t.layout.insert dim 1 stride)

/-- Dimension `i` of the view is dimension `permutation[i]` of the tensor. -/
def permute (t : Tensor) (permutation : List Nat) : Result Tensor :=
  if Dims.isPermutation t.rank permutation then
    .ok (t.withLayout (t.layout.gather fun i => permutation.getD i 0))
  else Result.reject (.permute permutation t.rank)

/-- Repeats the elements along new leading dimensions and along dimensions of extent one, so that the view has the
given extents. -/
def expand (t : Tensor) (extents : List Nat) : Result Tensor := do
  return t.withLayout (← t.layout.expand (← Dims.ofList extents))

end Tensor

/-! ### Chains of views -/

inductive ViewOp
  | view
  | asStrided (extents strides : List Nat) (offset : Nat)
  | reshape (extents : List Nat)
  | flatten
  | transpose
  | slice (dim start stop : Nat)
  | squeeze
  | squeezeDim (dim : Nat)
  | unsqueeze (dim : Nat)
  | permute (permutation : List Nat)
  | expand (extents : List Nat)
  deriving DecidableEq, Repr

namespace ViewOp

def apply (op : ViewOp) (t : Tensor) : Result Tensor :=
  match op with
  | view => .ok t.view
  | asStrided extents strides offset => t.asStrided extents strides offset
  | reshape extents => t.reshape extents
  | flatten => t.flatten
  | transpose => .ok t.transpose
  | slice dim start stop => t.slice dim start stop
  | squeeze => .ok t.squeeze
  | squeezeDim dim => t.squeezeDim dim
  | unsqueeze dim => t.unsqueeze dim
  | permute permutation => t.permute permutation
  | expand extents => t.expand extents

def applyAll (ops : List ViewOp) (t : Tensor) : Result Tensor := ops.foldlM (fun t op => op.apply t) t

end ViewOp

end StridedTensor
