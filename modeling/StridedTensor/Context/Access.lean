import StridedTensor.Context.Allocation
import StridedTensor.Scalar.Arithmetic

/-!
# Reading and writing elements

Single elements by their index, all of them at once, and the conversions between tensors and lists or scalars.
-/

namespace StridedTensor

namespace Bytes

def element (contents : Bytes) (offset size : Nat) : Result (List UInt8) :=
  match contents.read? offset size with
  | some bytes => .ok bytes
  | none => Result.halt .access

def setElement (contents : Bytes) (offset : Nat) (bytes : List UInt8) : Result Bytes :=
  if offset + bytes.length ≤ contents.size then .ok (contents.write offset bytes) else Result.halt .access

end Bytes

namespace Context

def get (c : Context) (t : Tensor) (index : List Nat) : Result Scalar := do
  let offset ← t.elementOffset index
  let contents ← c.host t
  Scalar.ofBytes t.type (← contents.element offset t.type.size)

def set (c : Context) (t : Tensor) (index : List Nat) (value : Scalar) : Result Unit × Context :=
  match t.elementOffset index with
  | .error e => (.error e, c)
  | .ok offset => c.updateHost t fun contents => contents.setElement offset (value.cast t.type).toBytes

def fill (c : Context) (t : Tensor) (value : Scalar) : Result Unit × Context :=
  c.updateHost t fun contents => do
    (← t.offsets).foldlM (fun contents offset => contents.setElement offset (value.cast t.type).toBytes) contents

/-- The patterns of all elements in row-major order. They have to be asked for with the tensor's own type. -/
def toList (c : Context) (t : Tensor) (type : ElementType) : Result (List (BitVec type.width)) := do
  if t.type ≠ type then Result.reject (.type t.type type)
  else
    let contents ← c.host t
    (← t.offsets).mapM fun offset => do
      return type.decode (← contents.element offset type.size)

def toScalar (c : Context) (t : Tensor) : Result Scalar :=
  if t.isScalar then c.get t [] else Result.reject (.shape t.shape .empty)

def elements (c : Context) (t : Tensor) : Result (List Scalar) := do
  c.validate t
  if (← t.numel) = 0 then return []
  (Shape.indices t.shape.toList).mapM (c.get t)

end Context

namespace Workspace

def ofList (w : Workspace) (type : ElementType) (data : List (BitVec type.width)) (extents : List Nat)
    (device : Device) : Result Tensor × Workspace :=
  match (Dims.ofList extents : Result Shape) with
  | .error e => (.error e, w)
  | .ok shape =>
    match Shape.numel shape with
    | .error e => (.error e, w)
    | .ok count =>
      if count ≠ data.length then (Result.reject (.count data.length count), w)
      else
        match w.allocShape shape type device with
        | (.error e, w) => (.error e, w)
        | (.ok t, w) =>
          let bytes := data.flatMap type.encode
          match w.context.updateHost t fun contents => contents.setElement 0 bytes with
          | (.ok _, context) => (.ok t, { w with context })
          | (.error e, context) => (.error e, (Workspace.release { w with context } t).2)

def ofScalar (w : Workspace) (value : Scalar) (device : Device) : Result Tensor × Workspace :=
  match w.allocShape .empty value.type device with
  | (.error e, w) => (.error e, w)
  | (.ok t, w) =>
    match w.context.fill t value with
    | (.ok _, context) => (.ok t, { w with context })
    | (.error e, context) => (.error e, { w with context })

end Workspace

end StridedTensor
