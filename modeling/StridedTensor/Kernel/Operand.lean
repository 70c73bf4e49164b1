import StridedTensor.Context.Basic
import StridedTensor.Kernel.Operation

/-!
# Operands of kernels

A kernel reads contiguous operands on the host and writes into a contiguous output, and any of them may share
bytes with the output. An operand that covers exactly the bytes of the output may be read in place: each of its
elements is read before the element is written. Any other operand is read in full before the first write.
-/

namespace StridedTensor

/-- The elements of an operand as they are read while the output is written: elements that no write changes, or
those of the output itself. -/
inductive Operand (α : Type)
  | elements (xs : Array α)
  | output

namespace Operand

variable {α : Type}

def get (x : Operand α) (output : Array α) (i : Nat) : Result α :=
  let element := match x with
    | elements xs => xs[i]?
    | .output => output[i]?
  match element with
  | some value => .ok value
  | none => Result.halt .access

/-- The elements of an operand that is not read in place. -/
def toArray : Operand α → Array α
  | elements xs => xs
  | output => #[]

end Operand

namespace Kernel

/-! ### Preconditions -/

def checkOperand (t : Tensor) : Result Unit := do
  if !t.device.isCpu then Result.reject (.device t.device)
  else if !(← t.isContiguous) then Result.reject (.nonContiguous t.shape t.strides)

def checkFloat (t : Tensor) : Result FloatType :=
  match t.type.float? with
  | some type => .ok type
  | none => Result.reject (.float t.type)

def checkIndex (t : Tensor) : Result IndexType :=
  match t.type.index? with
  | some type => .ok type
  | none => Result.reject (.indexType t.type)

def checkType (a b : Tensor) : Result Unit :=
  if a.type = b.type then .ok () else Result.reject (.type a.type b.type)

/-! ### Elements in memory -/

def spanBytes? (b : Buffer) (span : Span) : Option (List UInt8) := b.contents.read? span.start span.length

/-- Whether elements of type `t` can be read at a span without shifting bytes. -/
def isAligned (b : Buffer) (span : Span) (t : ElementType) : Bool :=
  (b.address + span.start) % t.alignment == 0 && span.length % t.size == 0

def load (t : FloatType) (bytes : List UInt8) : Array (Binary t.format) :=
  ((Bytes.words t.element.size bytes).map (Binary.ofNat t.format)).toArray

def store (t : ElementType) (patterns : List Nat) : List UInt8 := patterns.flatMap (Bytes.ofNat t.size)

/-- The elements of a buffer other than the output's. -/
def borrow (t : FloatType) (b : Buffer) (span : Span) : Result (Operand (Binary t.format)) := do
  discard b.hostBytes
  match spanBytes? b span with
  | none => Result.halt .access
  | some bytes =>
    if isAligned b span t.element then return .elements (load t bytes)
    else Result.reject (.misaligned t.element)

/-- The operand `input` of a kernel that writes `output`, whose buffer is `b`; the other buffers are in `arena`. -/
def resolve (t : FloatType) (arena : Arena) (b : Buffer) (input output : Tensor) (inPlace : Bool) :
    Result (Operand (Binary t.format)) := do
  let span ← input.span
  match input.buffer with
  | none => if span.isEmpty then return .elements #[] else Result.reject .null
  | some id =>
    if input.buffer = output.buffer then
      if inPlace && span == (← output.span) && input.type == output.type then return .output
      else
        match spanBytes? b span with
        | some bytes => return .elements (load t bytes)
        | none => Result.reject (.bounds span b.size)
    else
      match arena.get? id with
      | some other => borrow t other span
      | none => Result.reject (.released id)

def outputBytes (t : ElementType) (b : Buffer) (output : Tensor) : Result (Span × List UInt8) := do
  let span ← output.span
  match spanBytes? b span with
  | none => Result.reject (.bounds span b.size)
  | some bytes => if isAligned b span t then return (span, bytes) else Result.reject (.misaligned t)

/-! ### Loops -/

variable {α : Type}

def put (xs : Array α) (i : Nat) (x : α) : Result (Array α) :=
  if i < xs.size then .ok (xs.setIfInBounds i x) else Result.halt .access

/-- Writes one element after the other; `f` yields each from its position and the elements at that point. -/
def updateEach (f : Array α → Nat → Result α) (xs : Array α) : Result (Array α) :=
  (List.range xs.size).foldlM (fun xs i => do put xs i (← f xs i)) xs

def rows (n : Nat) (xs : List α) : List (List α) := chunks n (xs.length / n) xs

end Kernel

namespace Context

/-- Runs a kernel on the elements of the output, and stores what it leaves of them. -/
def writeElements (c : Context) (t : FloatType) (output : Tensor)
    (kernel : Arena → Buffer → Result (Array (Binary t.format) → Result (Array (Binary t.format)))) :
    Result Unit × Context :=
  c.withOutput output fun arena b => do
    let run ← kernel arena b
    let (span, bytes) ← Kernel.outputBytes t.element b output
    let elements ← run (Kernel.load t bytes)
    return b.contents.write span.start (Kernel.store t.element (elements.toList.map Binary.toNat))

/-- The outcome of a kernel: what `plan` finds wrong with the operands, nothing if there is nothing to do, and
what the kernel itself does otherwise. A lenient context passes over failed preconditions. -/
def runKernel {κ : Type} (c : Context) (plan : Result (Option κ)) (kernel : κ → Result Unit × Context) :
    Result Unit × Context :=
  match plan with
  | .error e => (c.lenient () (.error e), c)
  | .ok none => (.ok (), c)
  | .ok (some k) =>
    let (result, c') := kernel k
    (c.lenient () result, c')

end Context

end StridedTensor
