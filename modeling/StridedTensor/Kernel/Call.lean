import StridedTensor.Kernel.MatMul
import StridedTensor.Kernel.Reduction

/-!
# Kernel calls

A call of a kernel that writes an output, as a value. The operands are of any type that stands for tensors.
-/

namespace StridedTensor

inductive KernelCall (τ : Type)
  | unary (op : UnaryOp) (x output : τ)
  | binary (op : BinaryOp) (x y output : τ)
  | scalarOp (op : BinaryOp) (x : τ) (rhs : Scalar) (output : τ)
  | reduceLast (op : ReduceOp) (x output : τ)
  | argmax (x output : τ)
  | gemm (alpha : Binary .double) (a b : τ) (beta : Binary .double) (output : τ)
  | matmul (a b output : τ)

namespace KernelCall

variable {τ : Type}

def output : KernelCall τ → τ
  | unary _ _ o => o
  | binary _ _ _ o => o
  | scalarOp _ _ _ o => o
  | reduceLast _ _ o => o
  | argmax _ o => o
  | gemm _ _ _ _ o => o
  | matmul _ _ o => o

def operands? {σ : Type} (f : τ → Option σ) : KernelCall τ → Option (KernelCall σ)
  | unary op x o => return .unary op (← f x) (← f o)
  | binary op x y o => return .binary op (← f x) (← f y) (← f o)
  | scalarOp op x rhs o => return .scalarOp op (← f x) rhs (← f o)
  | reduceLast op x o => return .reduceLast op (← f x) (← f o)
  | argmax x o => return .argmax (← f x) (← f o)
  | gemm alpha a b beta o => return .gemm alpha (← f a) (← f b) beta (← f o)
  | matmul a b o => return .matmul (← f a) (← f b) (← f o)

end KernelCall

def Context.launch (c : Context) : KernelCall Tensor → Result Unit × Context
  | .unary op x o => c.unary op x o
  | .binary op x y o => c.binary op x y o
  | .scalarOp op x rhs o => c.scalarOp op x rhs o
  | .reduceLast op x o => c.reduceLast op x o
  | .argmax x o => c.argmax x o
  | .gemm alpha a b beta o => c.gemm alpha a b beta o
  | .matmul a b o => c.matmul a b o

end StridedTensor
