import StridedTensor.Context.Transfer
import StridedTensor.Kernel.Call
import StridedTensor.Tensor.View

/-!
# Commands and replies

What a client of several contexts can ask for, one command at a time, and what it gets back. The client names the
tensors that it holds.
-/

namespace StridedTensor

abbrev Handle := String

inductive Command
  -- Commands that bind a tensor to `out`.
  | null (out : Handle) (extents : List Nat) (type : ElementType) (device : Device)
  | alloc (out : Handle) (extents : List Nat) (type : ElementType) (device : Device)
  | ofList (out : Handle) (type : ElementType) (data : List (BitVec type.width)) (extents : List Nat)
      (device : Device)
  | ofScalar (out : Handle) (value : Scalar) (device : Device)
  | wrap (out : Handle) (address : Address) (contents : Bytes) (extents : List Nat) (type : ElementType)
      (device : Device)
  | contiguous (out x : Handle)
  | toDevice (out x : Handle) (device : Device)
  | view (out x : Handle) (op : ViewOp)
  -- Commands that write a tensor.
  | set (x : Handle) (index : List Nat) (value : Scalar)
  | fill (x : Handle) (value : Scalar)
  | copy (source target : Handle)
  | kernel (call : KernelCall Handle)
  -- Commands that end the life of a buffer.
  | release (x : Handle)
  | detach (x : Handle)
  | drop
  -- Commands that read.
  | info (x : Handle)
  | context
  | canReshape (x : Handle) (extents : List Nat)
  | canSlice (x : Handle) (dim start stop : Nat)
  | elementOffset (x : Handle) (index : List Nat)
  | offsets (x : Handle)
  | pair (x y : Handle)
  | isLive (x : Handle)
  | validate (x : Handle)
  | toList (x : Handle) (type : Option ElementType)
  | elements (x : Handle)
  | get (x : Handle) (index : List Nat)
  | toScalar (x : Handle)
  | reduceAll (op : ReduceOp) (x : Handle)
  | buffer (x : Handle)

inductive Reply
  | tensor (t : Tensor)
  | nothing
  | valid
  | flag (b : Bool)
  | number (n : Nat)
  | offsets (count : Nat) (offsets : List Nat)
  | scalar (s : Scalar)
  | scalars (values : List Scalar)
  /-- What the written tensor holds afterwards, or why it cannot be read. -/
  | wrote (values : Except TensorError (List Scalar))
  | info (t : Tensor)
  | pair (x y : Tensor)
  | context (allocator : String) (strict : Bool) (alignment : Nat)
  | buffer (b : Option Buffer)

end StridedTensor
