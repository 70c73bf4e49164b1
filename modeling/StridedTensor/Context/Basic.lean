import StridedTensor.Memory.Arena
import StridedTensor.Tensor.View

/-!
# Contexts

A context owns the memory of tensors: an arena of buffers, and the allocator that it got when it was built. Every
access through a tensor goes through `Context.check`, which asks whether the tensor is sound in itself, whether its
buffer is held here, and whether every byte that it addresses lies inside the buffer.

What a context does to the resources that it shares with others is a function on a `Workspace`, the context
together with the resources. Whatever fails leaves its result beside the state that it left behind.
-/

namespace StridedTensor

structure Context where
  allocator : AllocatorId
  arena : Arena
  /-- Whether kernels report the preconditions that fail, or pass over them. -/
  strict : Bool
  /-- The least alignment of a buffer, a power of two. -/
  alignment : Nat

structure ContextOptions where
  /-- The default allocator if there is none. -/
  allocator : Option AllocatorId := none
  strict : Bool := true
  alignment : Nat := 64

namespace Context

def build (options : ContextOptions) (r : Resources) : Context where
  allocator := options.allocator.getD r.defaultAllocator
  arena := .empty
  strict := options.strict
  alignment := normalizeAlignment options.alignment

def isLive (c : Context) (t : Tensor) : Bool :=
  match t.buffer with
  | some id => c.arena.contains id
  | none => false

/-- The buffer behind a tensor, all of whose bytes lie inside it; none for a tensor without elements and buffer. -/
def check (c : Context) (t : Tensor) : Result (Option Buffer) := do
  t.validate
  match t.buffer with
  | none => return none
  | some id =>
    match c.arena.get? id with
    | none => Result.reject (.released id)
    | some b =>
      if b.device ≠ t.device then Result.reject (.deviceMismatch t.device b.device)
      else
        let span ← t.span
        if b.size < span.stop then Result.reject (.bounds span b.size) else return some b

def validate (c : Context) (t : Tensor) : Result Unit := discard (c.check t)

def host (c : Context) (t : Tensor) : Result Bytes := do
  match ← c.check t with
  | some b => b.hostBytes
  | none => return #[]

def setContents (c : Context) (t : Tensor) (contents : Bytes) : Context :=
  match t.buffer with
  | some id =>
    match c.arena.get? id with
    | some b => { c with arena := c.arena.replace id { b with contents } }
    | none => c
  | none => c

/-- Changes the contents of the buffer behind a checked tensor. If `f` fails, they stay as they are. -/
def updateHost (c : Context) (t : Tensor) (f : Bytes → Result Bytes) : Result Unit × Context :=
  match c.host t >>= f with
  | .ok contents => (.ok (), c.setContents t contents)
  | .error e => (.error e, c)

/-- Runs `f` on the other buffers and the one of `output`, and stores the contents that it yields. -/
def withOutput (c : Context) (output : Tensor) (f : Arena → Buffer → Result Bytes) : Result Unit × Context :=
  match c.check output with
  | .error e => (.error e, c)
  | .ok _ =>
    match output.buffer with
    | none => (Result.reject .null, c)
    | some id =>
      let write (arena : Arena) (b : Buffer) : Result Unit × Buffer :=
        match b.hostBytes >>= fun _ => f arena b with
        | .ok contents => (.ok (), { b with contents })
        | .error e => (.error e, b)
      match c.arena.withOutput id write with
      | (some result, arena) => (result, { c with arena })
      | (none, arena) => (Result.reject (.released id), { c with arena })

/-- The result of a kernel, unless the context is lenient and it is a precondition that failed. -/
def lenient {α : Type} (c : Context) (skipped : α) (result : Result α) : Result α :=
  match result with
  | .error (.error e) => if !c.strict && e.isPrecondition then .ok skipped else result
  | result => result

end Context

structure Workspace where
  context : Context
  resources : Resources

end StridedTensor
