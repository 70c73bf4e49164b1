import StridedTensor.Bytes
import StridedTensor.Table

/-!
# Devices and allocators

An allocator hands out blocks of memory by their addresses. What it answers may depend on every call before, so
it is given by a `Provider`, a function of the calls so far, and an allocator that fails from some point on, or
hands an address out again after it was freed, is one like any other.

A tracking allocator keeps a ledger of its live blocks besides. The ledger is an account of its own: it is not
computed from the calls.
-/

namespace StridedTensor

/-! ### Devices -/

/-- Where memory lives. Only the host has a backend; the other devices can be named, but nothing can be allocated, read
or written there. -/
inductive Device
  | cpu | gpu | npu
  deriving DecidableEq, Repr

namespace Device

def all : List Device := [cpu, gpu, npu]

def name : Device → String
  | cpu => "cpu"
  | gpu => "gpu"
  | npu => "npu"

def isCpu : Device → Bool
  | cpu => true
  | _ => false

def isAvailable (d : Device) : Bool := d.isCpu

end Device

/-! ### Requests and calls -/

abbrev Address := Nat

/-- The given alignment as a power of two, and at least that of a pointer. What no power of two below `2 ^ 64`
reaches becomes the largest 64-bit number. -/
def normalizeAlignment (alignment : Nat) : Nat :=
  if alignment ≤ 8 then 8
  else if alignment ≤ 1 <<< 63 then 1 <<< ((alignment - 1).log2 + 1)
  else (1 <<< 64) - 1

structure Request where
  size : Nat
  alignment : Nat
  device : Device
  deriving DecidableEq, Repr

inductive Call
  | allocate (request : Request) (answer : Option Address)
  | free (address : Address) (request : Request)
  deriving DecidableEq, Repr

/-- The answer to a request after the given calls, the latest of which comes first. -/
abbrev Provider := List Call → Request → Option Address

/-! ### Providers -/

namespace Provider

def capacity : Nat := 1 <<< 47

def top (calls : List Call) : Address :=
  calls.foldl (fun last call =>
    match call with
    | .allocate request (some address) => max last (address + request.size)
    | _ => last) 4096

/-- The memory of the host. Requests for nothing, for other devices and for more than there is fail. -/
def system : Provider := fun calls request =>
  let alignment := normalizeAlignment request.alignment
  if request.size = 0 ∨ !request.device.isCpu ∨ capacity < request.size + alignment then none
  else some ((top calls + alignment - 1) / alignment * alignment)

def granted (calls : List Call) : Nat :=
  calls.countP fun
    | .allocate _ (some _) => true
    | _ => false

/-- The first `count` successful answers of another provider, and no more. -/
def limited (count : Nat) (inner : Provider) : Provider := fun calls request =>
  if count ≤ granted calls then none else inner calls request

end Provider

/-! ### Ledgers -/

/-- The sizes of the blocks that are live, by address, and the number of allocations and frees so far. -/
structure Ledger where
  blocks : Table Nat
  allocations : Nat
  frees : Nat

namespace Ledger

def empty : Ledger := ⟨.empty, 0, 0⟩

def live (l : Ledger) : Nat := l.blocks.size

def liveBytes (l : Ledger) : Nat := l.blocks.values.foldr (· + ·) 0

/-- Enters an allocation; a failed one leaves no trace. -/
def record (l : Ledger) (size : Nat) : Option Address → Ledger
  | some address => { l with blocks := l.blocks.insert address size, allocations := l.allocations + 1 }
  | none => l

/-- Strikes out a live block; of any other nothing is known. -/
def strike? (l : Ledger) (address : Address) : Option Ledger :=
  if l.blocks.contains address then some { l with blocks := l.blocks.erase address, frees := l.frees + 1 }
  else none

end Ledger

/-! ### Allocators -/

structure Allocator where
  name : String
  provider : Provider
  /-- The calls that reached the provider, the latest first. -/
  calls : List Call
  ledger : Option Ledger

namespace Allocator

def system : Allocator := ⟨"system", .system, [], none⟩

def tracking (provider : Provider) : Allocator := ⟨"tracking", provider, [], some .empty⟩

def limited (count : Nat) (provider : Provider) : Allocator :=
  { tracking (provider.limited count) with name := "limited" }

instance : Inhabited Allocator := ⟨system⟩

def allocate (a : Allocator) (request : Request) : Option Address × Allocator :=
  let answer := a.provider a.calls request
  (answer, { a with
    calls := .allocate request answer :: a.calls
    ledger := a.ledger.map (·.record request.size answer) })

def allocateZeroed (a : Allocator) (request : Request) : Option (Address × Bytes) × Allocator :=
  let (answer, a) := a.allocate request
  (answer.map fun address => (address, Array.replicate request.size 0), a)

/-- Takes a block back. Without an address there is nothing to do, and what is not in the ledger is left alone. -/
def free (a : Allocator) (address : Option Address) (request : Request) : Allocator :=
  match address with
  | none => a
  | some p =>
    match a.ledger with
    | none => { a with calls := .free p request :: a.calls }
    | some ledger =>
      match ledger.strike? p with
      | none => a
      | some ledger => { a with calls := .free p request :: a.calls, ledger := some ledger }

end Allocator

end StridedTensor
