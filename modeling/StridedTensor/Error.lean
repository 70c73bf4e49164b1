import StridedTensor.Dims.Basic
import StridedTensor.ElementType
import StridedTensor.Memory.Allocator

/-!
# Errors and faults

An operation that cannot do what it is asked reports a `TensorError`: a cause with the values that show it. Each
cause belongs to a status, and some of them are preconditions of kernels, which a lenient context ignores.

A `Fault` is not reported but stops the computation: a product of extents that leaves 64 bits, or an access that
no check has covered.
-/

namespace StridedTensor

/-- The name of a buffer. Names are never used twice. -/
abbrev BufferId := Nat

inductive StatusCode
  | ok | invalidArgument | outOfBounds | allocationFailed | typeMismatch | invalidState | notImplemented
  deriving DecidableEq, Repr

namespace StatusCode

def all : List StatusCode :=
  [ok, invalidArgument, outOfBounds, allocationFailed, typeMismatch, invalidState, notImplemented]

instance : Inhabited StatusCode := ⟨ok⟩

def name : StatusCode → String
  | ok => "ok"
  | invalidArgument => "invalid argument"
  | outOfBounds => "out of bounds"
  | allocationFailed => "allocation failed"
  | typeMismatch => "type mismatch"
  | invalidState => "invalid state"
  | notImplemented => "not implemented"

def isOk (s : StatusCode) : Bool := s == ok

def isError (s : StatusCode) : Bool := !s.isOk

end StatusCode

/-- The bytes `start ≤ i < stop` of a buffer. -/
structure Span where
  start : Nat
  stop : Nat
  deriving DecidableEq, Repr

namespace Span

def isEmpty (s : Span) : Bool := s.stop ≤ s.start

def length (s : Span) : Nat := s.stop - s.start

def text (s : Span) : String := toString s.start ++ ".." ++ toString s.stop

end Span

inductive AllocError
  | empty
  | device (device : Device)
  | exhausted (allocator : String) (size alignment : Nat)
  deriving DecidableEq, Repr

def AllocError.message : AllocError → String
  | empty => "zero-sized allocation"
  | device d => "no allocator backend for device " ++ d.name
  | exhausted name size alignment =>
    "allocator " ++ name ++ " failed to provide " ++ toString size ++ " bytes aligned to " ++ toString alignment

inductive TensorError
  | rank (rank : Nat)
  | dim (dim rank : Nat)
  | reshape (source target : Shape)
  | nonContiguous (shape : Shape) (strides : Strides)
  | slice (dim start stop : Nat) (shape : Shape)
  | permute (permutation : List Nat) (rank : Nat)
  | expand (source target : Shape)
  | broadcast (a b : Shape)
  | shape (a b : Shape)
  | count (a b : Nat)
  | zeroStride (dim extent : Nat)
  | overflow
  | type (a b : ElementType)
  | float (type : ElementType)
  | indexType (type : ElementType)
  | device (device : Device)
  | deviceMismatch (tensor buffer : Device)
  | alloc (cause : AllocError)
  | null
  | released (buffer : BufferId)
  | detach (buffer : BufferId)
  | bounds (span : Span) (length : Nat)
  | index (index : List Nat) (shape : Shape)
  | misaligned (type : ElementType)
  | divisionByZero
  | bytes (type : ElementType) (length : Nat)
  deriving DecidableEq

namespace TensorError

/-- The text of an error; `buffer` gives the text of a buffer's name. -/
def message (buffer : BufferId → String) : TensorError → String
  | rank n => "tensor rank error: rank " ++ toString n ++ " exceeds " ++ toString maxRank
  | dim d n => "tensor dim error: dim " ++ toString d ++ " out of range for rank " ++ toString n
  | reshape a b => "tensor reshape error: shape " ++ a.text ++ "'s size not match shape " ++ b.text ++ "'s"
  | nonContiguous a s =>
    "tensor layout error: strides " ++ s.text ++ " of shape " ++ a.text ++ " are not contiguous"
  | slice d start stop a =>
    "tensor slice error: range " ++ Span.text ⟨start, stop⟩ ++ " not in dim " ++ toString d ++ " of shape " ++
      a.text
  | permute p n => "tensor permute error: " ++ bracketed p ++ " is not a permutation of rank " ++ toString n
  | expand a b => "tensor expand error: shape " ++ a.text ++ " cannot expand to " ++ b.text
  | broadcast a b => "tensor broadcast error: shape " ++ a.text ++ " not compatible with shape " ++ b.text
  | shape a b => "tensor shape error: shape " ++ a.text ++ " not match shape " ++ b.text
  | count a b => "tensor count error: element count " ++ toString a ++ " not match " ++ toString b
  | zeroStride d n =>
    "tensor layout error: extent " ++ toString n ++ " at dim " ++ toString d ++
      " of an owning tensor has zero stride"
  | overflow => "tensor layout error: addressed span overflows"
  | type a b => "tensor type error: data type " ++ a.name ++ " mismatches " ++ b.name
  | float t => "tensor type error: expected a float type, got " ++ t.name
  | indexType t => "tensor type error: expected an index type (i32 or i64), got " ++ t.name
  | device d => "tensor device error: device " ++ d.name ++ " is not available"
  | deviceMismatch a b => "tensor device error: device " ++ a.name ++ " mismatches " ++ b.name
  | alloc e => "tensor alloc error: " ++ e.message
  | null => "tensor state error: tensor has no buffer"
  | released id => "tensor state error: buffer " ++ buffer id ++ " has been released"
  | detach id => "tensor state error: buffer " ++ buffer id ++ " is owned and cannot be detached"
  | bounds s n => "tensor bounds error: bytes " ++ s.text ++ " exceed buffer of " ++ toString n ++ " bytes"
  | index i a => "tensor index error: index " ++ bracketed i ++ " out of bounds for shape " ++ a.text
  | misaligned t => "tensor alignment error: data is not aligned for " ++ t.name
  | divisionByZero => "scalar error: division by zero"
  | bytes t n => "scalar error: " ++ toString n ++ " bytes cannot hold a " ++ t.name ++ " value"

def status : TensorError → StatusCode
  | rank _ | dim _ _ | reshape _ _ | nonContiguous _ _ | permute _ _ | expand _ _ | broadcast _ _ | shape _ _
  | count _ _ | zeroStride _ _ | overflow | divisionByZero | bytes _ _ => .invalidArgument
  | slice _ _ _ _ | bounds _ _ | index _ _ => .outOfBounds
  | type _ _ | float _ | indexType _ | deviceMismatch _ _ => .typeMismatch
  | device _ | alloc (.device _) => .notImplemented
  | alloc _ => .allocationFailed
  | null | released _ | detach _ | misaligned _ => .invalidState

/-- Whether the operands of a kernel differ in shape, type or device. A lenient context passes over these and over
no other errors. -/
def isPrecondition : TensorError → Bool
  | rank _ | dim _ _ | nonContiguous _ _ | shape _ _ | count _ _ | type _ _ | float _ | indexType _ | device _
  | deviceMismatch _ _ => true
  | _ => false

end TensorError

/-- What stops a computation: a number beyond 64 bits, the removal of an entry that does not exist, or access beyond
the end of a block of memory or of an operand. -/
inductive Fault
  | overflow
  | removal (index rank : Nat)
  | access
  deriving DecidableEq, Repr

def Fault.message? : Fault → Option String
  | removal index rank => some ("index " ++ toString index ++ " out of range for rank " ++ toString rank)
  | _ => none

inductive Failure
  | error (cause : TensorError)
  | fault (cause : Fault)
  deriving DecidableEq

/-- What an operation yields: a value, an error or a fault. -/
abbrev Result := Except Failure

namespace Result

variable {α : Type}

def reject (e : TensorError) : Result α := Except.error (Failure.error e)

def halt (f : Fault) : Result α := Except.error (Failure.fault f)

/-- The number, unless it is beyond 64 bits. -/
def ofWord? : Option α → Result α
  | some n => .ok n
  | none => halt .overflow

/-- The number, unless the span that it bounds goes beyond 64 bits. -/
def ofSpanEnd? : Option α → Result α
  | some n => .ok n
  | none => reject .overflow

theorem bind_eq_ok {β : Type} {r : Result α} {f : α → Result β} {b : β} :
    (r >>= f) = .ok b ↔ ∃ a, r = .ok a ∧ f a = .ok b := by
  cases r <;> simp [bind, Except.bind]

theorem ofWord?_eq_ok {o : Option α} {a : α} : ofWord? o = .ok a ↔ o = some a := by
  cases o <;> simp [ofWord?, halt]

theorem ofSpanEnd?_eq_ok {o : Option α} {a : α} : ofSpanEnd? o = .ok a ↔ o = some a := by
  cases o <;> simp [ofSpanEnd?, reject]

end Result

end StridedTensor
