import StridedTensor.Proofs.Coherence

/-!
# Tensors that are made

The ways in which an allocation can come out (`Workspace.allocShape_allocated`). A tensor that has just been made
passes the check (`Workspace.Made.validate`), and if it is released at once, the context is what it was before
(`Workspace.release_made`).
-/

namespace StridedTensor

theorem Layout.error_of_canonical {shape : Shape} {type : ElementType} {e : Failure}
    (h : Layout.canonical shape type = .error e) : e = .fault .overflow := by
  unfold Layout.canonical at h
  cases hr : Shape.rowMajor? type.size shape.toList with
  | some found => simp [hr, Result.ofWord?, pure, Except.pure] at h
  | none =>
    rw [hr] at h
    exact (Except.error.inj h).symm

/-- If there are elements and their bytes can be counted, they have row-major strides. -/
theorem Shape.canonical_of_byteSize {shape : Shape} {type : ElementType} {n size : Nat} (hn : shape.numel = .ok n)
    (h0 : 0 < n) (hsize : shape.byteSize type = .ok size) :
    size = n * type.size ∧ ∃ l, Layout.canonical shape type = .ok l := by
  have hprod : n = shape.toList.prod := Word.product?_eq (Result.ofWord?_eq_ok.1 hn)
  obtain ⟨m, hm, hbytes⟩ := Result.bind_eq_ok.1 hsize
  obtain rfl : m = n := Except.ok.inj (hm.symm.trans hn)
  obtain ⟨hfit, hsize⟩ := Word.mul?_eq_some.1 (Result.ofWord?_eq_ok.1 hbytes)
  exact ⟨hsize, Layout.canonical_eq_ok (hprod ▸ h0) (by rw [← hprod, Nat.mul_comm]; exact hfit)⟩

namespace Workspace

variable {w : Workspace} {shape : Shape} {type : ElementType} {device : Device} {n : Nat} {l : Layout} {b : Buffer}
  {r : Resources}

/-- The tensor that a workspace makes next, which owns its buffer. -/
def nextOwner (w : Workspace) (type : ElementType) (device : Device) (l : Layout) : Tensor :=
  ⟨some w.resources.nextBuffer, 0, type, device, l, true⟩

/-- The workspace with a buffer for the next tensor. Its memory is no longer in the resources `r`. -/
def insertNext (w : Workspace) (b : Buffer) (r : Resources) : Workspace :=
  ⟨{ w.context with arena := w.context.arena.insert w.resources.nextBuffer b },
    { r with nextBuffer := w.resources.nextBuffer + 1 }⟩

/-- There is memory for `n` elements in the layout `l`: the buffer `b`. -/
structure Made (w : Workspace) (shape : Shape) (type : ElementType) (device : Device) (n : Nat) (l : Layout)
    (b : Buffer) (r : Resources) : Prop where
  numel : shape.numel = .ok n
  pos : 0 < n
  byteSize : shape.byteSize type = .ok (n * type.size)
  canonical : Layout.canonical shape type = .ok l
  allocate : Buffer.allocate w.resources w.context.allocator (n * type.size)
    (max w.context.alignment type.alignment) device = (.ok b, r)

/-- The outcomes of an allocation. -/
inductive Allocated (w : Workspace) (shape : Shape) (type : ElementType) (device : Device) :
    Result Tensor × Workspace → Prop
  /-- The allocator has not been asked. -/
  | stop (e : Failure) : Allocated w shape type device (.error e, w)
  | refuse {size alignment : Nat} {e : AllocError} {r : Resources}
      (failed : Buffer.allocate w.resources w.context.allocator size alignment device = (.error e, r)) :
      Allocated w shape type device (Result.reject (.alloc e), ⟨w.context, r⟩)
  /-- Without elements there is no buffer. -/
  | empty {l : Layout} (numel : shape.numel = .ok 0) (canonical : Layout.canonical shape type = .ok l)
      (cpu : device.isCpu = true) : Allocated w shape type device (.ok ⟨none, 0, type, device, l, false⟩, w)
  | make {n : Nat} {l : Layout} {b : Buffer} {r : Resources} (made : Made w shape type device n l b r) :
      Allocated w shape type device (.ok (w.nextOwner type device l), w.insertNext b r)

theorem allocShape_allocated (w : Workspace) (shape : Shape) (type : ElementType) (device : Device) :
    Allocated w shape type device (w.allocShape shape type device) := by
  unfold allocShape Device.isAvailable
  cases hcpu : device.isCpu with
  | false => exact .stop _
  | true =>
    simp only [Bool.not_true, Bool.false_eq_true, if_false]
    split
    · exact .stop _
    · rename_i hn
      unfold Tensor.borrowed
      cases hl : Layout.canonical shape type with
      | error e => exact .stop e
      | ok l => exact .empty hn hl hcpu
    · rename_i n h0 hn
      split
      · exact .stop _
      · rename_i size hsize
        obtain ⟨rfl, l, hl⟩ := Shape.canonical_of_byteSize hn (Nat.pos_of_ne_zero h0) hsize
        split
        · rename_i e r h
          exact .refuse h
        · rename_i b r h
          have hmake := Allocated.make ⟨hn, Nat.pos_of_ne_zero h0, hsize, hl, h⟩
          have hnext : r.nextBuffer = w.resources.nextBuffer := by
            obtain ⟨_, -, -, -, -, rfl⟩ := Buffer.allocate_eq_ok h
            rfl
          unfold Tensor.owned Arena.add
          rw [hl, hnext]
          exact hmake

/-! ### The new buffer -/

theorem get?_insertNext (w : Workspace) (b : Buffer) (r : Resources) (id : BufferId) :
    (w.insertNext b r).context.arena.get? id =
      if id = w.resources.nextBuffer then some b else w.context.arena.get? id := Table.get?_insert _ _ _ _

namespace Made

theorem shape_eq (h : Made w shape type device n l b r) : l.shape = shape := (Layout.distance_canonical h.canonical).1

theorem owns (h : Made w shape type device n l b r) :
    (w.nextOwner type device l).Owns w.resources.nextBuffer := by
  obtain ⟨_, -, -, hcpu, -, -⟩ := Buffer.allocate_eq_ok h.allocate
  obtain rfl := h.shape_eq
  exact ⟨rfl, rfl, rfl, h.canonical, hcpu, n, h.numel, h.pos⟩

theorem keeps (h : Made w shape type device n l b r) :
    (w.insertNext b r).context.Keeps (w.nextOwner type device l) w.resources.nextBuffer := by
  obtain ⟨_, -, -, -, rfl, -⟩ := Buffer.allocate_eq_ok h.allocate
  obtain rfl := h.shape_eq
  refine ⟨_, (get?_insertNext _ _ _ _).trans (if_pos rfl), rfl, rfl, ?_⟩
  rw [Buffer.size, Array.size_replicate]
  exact h.byteSize

theorem validate (h : Made w shape type device n l b r) :
    (w.insertNext b r).context.validate (w.nextOwner type device l) = .ok () := h.keeps.validate h.owns

end Made

/-- What comes of a tensor that has just been made once it has been written: it is given back if that has failed. -/
def settle (w : Workspace) (t : Tensor) : Result Unit × Context → Result Tensor × Workspace
  | (.ok _, context) => (.ok t, ⟨context, w.resources⟩)
  | (.error e, context) => (.error e, (release ⟨context, w.resources⟩ t).2)

/-- What has just been made and is released takes the buffer with it. -/
theorem release_made (hfree : w.context.arena.get? w.resources.nextBuffer = none) (type : ElementType)
    (device : Device) (l : Layout) (b : Buffer) (r : Resources) :
    ((w.insertNext b r).release (w.nextOwner type device l)).2 =
      ⟨w.context, b.dispose { r with nextBuffer := w.resources.nextBuffer + 1 }⟩ := by
  have hnew : (w.context.arena.insert w.resources.nextBuffer b).get? w.resources.nextBuffer = some b := by
    rw [Table.get?_insert, if_pos rfl]
  simp only [release, nextOwner, insertNext, Option.any_some, Table.contains, hnew, Option.isSome_some, Bool.not_true,
    Bool.and_false, Bool.false_eq_true, if_false, Tensor.disown, if_true, dispose, Arena.dispose,
    Table.erase_insert hfree]

end Workspace

end StridedTensor
