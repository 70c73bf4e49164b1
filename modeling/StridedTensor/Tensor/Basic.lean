import StridedTensor.Layout.View

/-!
# Tensors

A tensor describes where elements lie: in which buffer, from which byte on, of which type and in which layout. It
holds no data, and several tensors may describe the same bytes. At most one of them owns the buffer.

Three statements about it need no memory: `Tensor.span` is the range of bytes that it addresses,
`Tensor.elementOffset` the place of one element, and `Tensor.offsets` the places of all of them in row-major order.
-/

namespace StridedTensor

structure Tensor where
  buffer : Option BufferId
  /-- The byte of the buffer at which the first element lies. -/
  offset : Nat
  type : ElementType
  device : Device
  layout : Layout
  /-- Whether releasing the tensor frees its buffer. -/
  ownership : Bool
  deriving DecidableEq

namespace Tensor

def shape (t : Tensor) : Shape := t.layout.shape

def strides (t : Tensor) : Strides := t.layout.strides

def rank (t : Tensor) : Nat := t.layout.rank

def owned (buffer : BufferId) (shape : Shape) (type : ElementType) (device : Device) : Result Tensor := do
  return ⟨some buffer, 0, type, device, ← Layout.canonical shape type, true⟩

/-- A description of a buffer, or of none, in row-major layout. -/
def borrowed (buffer : Option BufferId) (shape : Shape) (type : ElementType) (device : Device) :
    Result Tensor := do
  return ⟨buffer, 0, type, device, ← Layout.canonical shape type, false⟩

/-- A layout without memory. With elements in it, every access fails. -/
def null (extents : List Nat) (type : ElementType) (device : Device) : Result Tensor := do
  borrowed none (← Dims.ofList extents) type device

/-- Takes the buffer from its owner. Other tensors keep theirs. -/
def disown (t : Tensor) : Option BufferId × Tensor :=
  if t.ownership then (t.buffer, { t with buffer := none, ownership := false }) else (none, t)

def isNull (t : Tensor) : Bool := t.buffer.isNone

def isScalar (t : Tensor) : Bool := t.rank == 0

def numel (t : Tensor) : Result Nat := t.shape.numel

/-- The bytes of the elements, each counted once for every index. -/
def nbytes (t : Tensor) : Result Nat := t.shape.byteSize t.type

/-! ### Addresses -/

/-- The range of bytes that the tensor addresses. It is empty when there are no elements. -/
def span (t : Tensor) : Result Span := do
  if (← t.numel) = 0 then return ⟨t.offset, t.offset⟩
  let last ← Result.ofSpanEnd? (Layout.lastDistance? t.layout.axes)
  let start ← Result.ofSpanEnd? (Word.add? t.offset last)
  let stop ← Result.ofSpanEnd? (Word.add? start t.type.size)
  return ⟨t.offset, stop⟩

def elementOffset (t : Tensor) (index : List Nat) : Result Nat := do
  if !t.layout.inBounds index then Result.reject (.index index t.shape)
  else
    let distance ← Result.ofWord? (Layout.distance? t.layout.axes index)
    Result.ofWord? (Word.add? t.offset distance)

def offsets (t : Tensor) : Result (List Nat) := do
  let count ← t.numel
  Result.ofWord? (Layout.walk? t.layout.axes.reverse count (List.replicate t.rank 0) t.offset)

/-! ### Density -/

def isContiguous (t : Tensor) : Result Bool := t.layout.isContiguous t.type

def isColumnMajor (t : Tensor) : Result Bool := t.layout.isColumnMajor t.type

def isDense (t : Tensor) : Result Bool := do
  if ← t.isContiguous then return true else t.isColumnMajor

def isBroadcast (t : Tensor) : Bool := t.layout.isBroadcast

/-! ### Validity -/

def zeroStride? (t : Tensor) : Option Nat :=
  t.layout.axes.findIdx? fun (extent, stride) => 1 < extent && stride == 0

/-- Checks what can be checked without the memory behind the tensor. -/
def validate (t : Tensor) : Result Unit := do
  if !t.device.isAvailable then Result.reject (.device t.device)
  if t.buffer.isNone then
    if t.ownership then Result.reject .null
    if 0 < (← t.numel) then Result.reject .null
  if t.ownership then
    if let some dim := t.zeroStride? then Result.reject (.zeroStride dim (t.shape.entry dim))
  discard t.span

def isValid (t : Tensor) : Result Bool :=
  match t.validate with
  | .ok _ => .ok true
  | .error (.error _) => .ok false
  | .error (.fault f) => Result.halt f

/-! ### Two tensors -/

def sameShape (a b : Tensor) : Bool := a.shape == b.shape

def canBroadcast (a b : Tensor) : Bool := Shape.canBroadcast a.shape b.shape

def broadcastShape (a b : Tensor) : Result Shape := Shape.broadcast a.shape b.shape

end Tensor

end StridedTensor
