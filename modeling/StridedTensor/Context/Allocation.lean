import StridedTensor.Context.Basic

/-!
# Allocation and release

A context takes memory from its allocator (`alloc`) or from the caller (`wrap`), and gives it back when the owning
tensor is released, when lent memory is detached, and when the context is dropped.
-/

namespace StridedTensor.Workspace

/-- An owning tensor of zeros in row-major layout. Without elements there is no buffer and nothing to own. -/
def allocShape (w : Workspace) (shape : Shape) (type : ElementType) (device : Device) :
    Result Tensor × Workspace :=
  if !device.isAvailable then (Result.reject (.alloc (.device device)), w)
  else
    match shape.numel with
    | .error e => (.error e, w)
    | .ok 0 => (Tensor.borrowed none shape type device, w)
    | .ok _ =>
      match shape.byteSize type with
      | .error e => (.error e, w)
      | .ok size =>
        let alignment := max w.context.alignment type.alignment
        match Buffer.allocate w.resources w.context.allocator size alignment device with
        | (.error e, resources) => (Result.reject (.alloc e), { w with resources })
        | (.ok buffer, resources) =>
          let (id, arena, resources) := w.context.arena.add resources buffer
          (Tensor.owned id shape type device, ⟨{ w.context with arena }, resources⟩)

def alloc (w : Workspace) (extents : List Nat) (type : ElementType) (device : Device) :
    Result Tensor × Workspace :=
  match Dims.ofList extents with
  | .ok shape => w.allocShape shape type device
  | .error e => (.error e, w)

def dispose (w : Workspace) (id : BufferId) : Workspace :=
  let (arena, resources) := w.context.arena.dispose w.resources id
  ⟨{ w.context with arena }, resources⟩

/-- Frees the buffer of an owning tensor, which is left without one. Any other tensor stays as it is, and so does
an owner whose buffer is not held here. -/
def release (w : Workspace) (t : Tensor) : Tensor × Workspace :=
  if t.buffer.any (fun id => t.ownership && !w.context.arena.contains id) then (t, w)
  else
    let (id, t) := t.disown
    (t, match id with
      | some id => w.dispose id
      | none => w)

/-- A tensor over memory that the caller lends: `contents` at `address`. The memory has to be large enough, but may
be larger. -/
def wrap (w : Workspace) (address : Address) (contents : Bytes) (extents : List Nat) (type : ElementType)
    (device : Device) : Result Tensor × Workspace :=
  let memory := w.resources.callerMemory.length
  let resources := { w.resources with callerMemory := w.resources.callerMemory ++ [contents] }
  let w := { w with resources }
  match (Dims.ofList extents : Result Shape) with
  | .error e => (.error e, w)
  | .ok shape =>
    match Shape.byteSize shape type with
    | .error e => (.error e, w)
    | .ok size =>
      if contents.size < size then (Result.reject (.bounds ⟨0, size⟩ contents.size), w)
      else
        let (id, arena, resources) := w.context.arena.add resources (Buffer.foreign memory address contents device)
        (Tensor.borrowed (some id) shape type device, ⟨{ w.context with arena }, resources⟩)

def detach (w : Workspace) (t : Tensor) : Result Unit × Workspace :=
  match t.buffer with
  | none => (Result.reject .null, w)
  | some id =>
    match w.context.arena.get? id with
    | none => (Result.reject (.released id), w)
    | some b => if b.isOwned then (Result.reject (.detach id), w) else (.ok (), w.dispose id)

def drop (w : Workspace) : Resources := w.context.arena.disposeAll w.resources

end StridedTensor.Workspace
