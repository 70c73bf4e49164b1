import StridedTensor.Error
import StridedTensor.Memory.Allocator

/-!
# Buffers and arenas

A buffer is a block of memory with its contents. It came from an allocator, which gets it back in the end, or was
lent by the caller, who then finds in it what was last written there.

`Resources` is what buffers are made from: the allocators, the supply of buffer names, and the callers' memory.

An arena holds buffers under their names. While an operation writes one of them, it sees the others and not the
one it writes.
-/

namespace StridedTensor

/-- The position of an allocator in `Resources.allocators`. -/
abbrev AllocatorId := Nat

structure Resources where
  /-- The first one is the system allocator. -/
  allocators : List Allocator
  /-- The allocator of contexts that are built without one. -/
  defaultAllocator : AllocatorId
  /-- The name that the next buffer gets, in whatever arena. The counter stands for any supply of names: what is relied
  on is that no name is given twice, over all contexts. -/
  nextBuffer : BufferId
  /-- The memory that callers have lent, as it was when they last had it. -/
  callerMemory : List Bytes

namespace Resources

def initial : Resources := ⟨[.system], 0, 0, []⟩

instance : Inhabited Resources := ⟨initial⟩

def allocator (r : Resources) (id : AllocatorId) : Allocator := r.allocators.getD id .system

def setAllocator (r : Resources) (id : AllocatorId) (a : Allocator) : Resources :=
  { r with allocators := r.allocators.set id a }

def register (r : Resources) (a : Allocator) : AllocatorId × Resources :=
  (r.allocators.length, { r with allocators := r.allocators ++ [a] })

/-- Makes another allocator the default. Contexts keep the allocator that they were built with. -/
def setDefault (r : Resources) (id : AllocatorId) : AllocatorId × Resources :=
  (r.defaultAllocator, { r with defaultAllocator := id })

end Resources

inductive Origin
  /-- Goes back to the allocator. -/
  | owned (allocator : AllocatorId)
  /-- Goes back to the caller: a position in `Resources.callerMemory`. -/
  | foreign (memory : Nat)
  deriving DecidableEq, Repr

structure Buffer where
  address : Address
  contents : Bytes
  alignment : Nat
  device : Device
  origin : Origin
  deriving DecidableEq

namespace Buffer

def size (b : Buffer) : Nat := b.contents.size

def isEmpty (b : Buffer) : Bool := b.size == 0

def isOwned (b : Buffer) : Bool :=
  match b.origin with
  | .owned _ => true
  | .foreign _ => false

def allocate (r : Resources) (id : AllocatorId) (size alignment : Nat) (device : Device) :
    Except AllocError Buffer × Resources :=
  if size = 0 then (.error .empty, r)
  else if !device.isAvailable then (.error (.device device), r)
  else
    let (answer, a) := (r.allocator id).allocateZeroed ⟨size, alignment, device⟩
    let r := r.setAllocator id a
    match answer with
    | some (address, contents) => (.ok ⟨address, contents, alignment, device, .owned id⟩, r)
    | none => (.error (.exhausted a.name size alignment), r)

/-- A block that the caller lends. Its alignment is what its address shows, up to a page. -/
def foreign (memory : Nat) (address : Address) (contents : Bytes) (device : Device) : Buffer :=
  ⟨address, contents, Nat.gcd address 4096, device, .foreign memory⟩

def dispose (b : Buffer) (r : Resources) : Resources :=
  match b.origin with
  | .owned id =>
    r.setAllocator id ((r.allocator id).free (some b.address) ⟨b.size, b.alignment, b.device⟩)
  | .foreign memory => { r with callerMemory := r.callerMemory.set memory b.contents }

def hostBytes (b : Buffer) : Result Bytes :=
  if b.device.isCpu then .ok b.contents else Result.reject (.device b.device)

end Buffer

/-! ### Arenas -/

abbrev Arena := Table Buffer

namespace Arena

def bytes (a : Arena) : Nat := (a.values.map Buffer.size).foldr (· + ·) 0

/-- Stores a buffer under a name that no buffer of any arena has had. -/
def add (a : Arena) (r : Resources) (b : Buffer) : BufferId × Arena × Resources :=
  (r.nextBuffer, Table.insert a r.nextBuffer b, { r with nextBuffer := r.nextBuffer + 1 })

def dispose (a : Arena) (r : Resources) (id : BufferId) : Arena × Resources :=
  match a.get? id with
  | some b => (a.erase id, b.dispose r)
  | none => (a, r)

def disposeAll (a : Arena) (r : Resources) : Resources := a.values.foldl (fun r b => b.dispose r) r

/-- Runs `f` on the arena without the buffer `id` and on that buffer, and stores the buffer that `f` leaves. Taking the
buffer out and putting the new one in under the same name is one replacement: what `f` leaves of the arena without it
is thrown away, and the order of the entries has no meaning. -/
def withOutput {α : Type} (a : Arena) (id : BufferId) (f : Arena → Buffer → α × Buffer) :
    Option α × Arena :=
  match a.get? id with
  | some b =>
    let (value, b) := f (a.erase id) b
    (some value, a.replace id b)
  | none => (none, a)

end Arena

end StridedTensor
