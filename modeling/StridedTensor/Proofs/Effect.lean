import Mathlib.Logic.Relation
import StridedTensor.Proofs.Frame

/-!
# Effects of operations

Operations on a workspace differ in what they compute, but what they do to buffers and resources is made of a few
kinds of changes (`Workspace.Effect`). Every operation is a chain of them, and whatever each of them preserves holds
after every operation.

Effects keep buffers with names below a bound, usually that of the first new buffer: what an operation made itself it
may give back, and it leaves the other buffers in place (`Workspace.Grows`). Only a release, a detachment or the end
of a context takes an old buffer away.
-/

namespace StridedTensor

/-! ### Allocation -/

namespace Resources

@[simp] theorem nextBuffer_setAllocator (r : Resources) (id : AllocatorId) (a : Allocator) :
    (r.setAllocator id a).nextBuffer = r.nextBuffer := rfl

@[simp] theorem callerMemory_setAllocator (r : Resources) (id : AllocatorId) (a : Allocator) :
    (r.setAllocator id a).callerMemory = r.callerMemory := rfl

@[simp] theorem length_allocators_setAllocator (r : Resources) (id : AllocatorId) (a : Allocator) :
    (r.setAllocator id a).allocators.length = r.allocators.length := by simp [setAllocator]

end Resources

namespace Buffer

@[simp] theorem nextBuffer_dispose (b : Buffer) (r : Resources) : (b.dispose r).nextBuffer = r.nextBuffer := by
  unfold dispose
  split <;> rfl

@[simp] theorem length_callerMemory_dispose (b : Buffer) (r : Resources) :
    (b.dispose r).callerMemory.length = r.callerMemory.length := by
  unfold dispose
  split <;> simp

@[simp] theorem length_allocators_dispose (b : Buffer) (r : Resources) :
    (b.dispose r).allocators.length = r.allocators.length := by
  unfold dispose
  split <;> simp

variable {r r' : Resources} {id : AllocatorId} {size alignment : Nat} {device : Device}

theorem allocate_eq_ok {b : Buffer} (h : allocate r id size alignment device = (.ok b, r')) :
    ∃ address, ((r.allocator id).allocate ⟨size, alignment, device⟩).1 = some address ∧ 0 < size ∧
      device.isCpu = true ∧ b = ⟨address, Array.replicate size 0, alignment, device, .owned id⟩ ∧
      r' = r.setAllocator id ((r.allocator id).allocate ⟨size, alignment, device⟩).2 := by
  unfold allocate at h
  by_cases h0 : size = 0
  · simp [h0] at h
  · rw [if_neg h0] at h
    unfold Device.isAvailable at h
    cases hd : device.isCpu with
    | false => simp [hd] at h
    | true =>
      simp only [hd, Bool.not_true, Bool.false_eq_true, if_false, Allocator.allocateZeroed] at h
      cases ha : ((r.allocator id).allocate ⟨size, alignment, device⟩).1 with
      | none => simp [ha] at h
      | some address =>
        simp only [ha, Option.map_some, Prod.mk.injEq, Except.ok.injEq] at h
        exact ⟨address, rfl, by omega, rfl, h.1.symm, h.2.symm⟩

/-- An allocation that fails was refused beforehand, or the allocator has no answer to it. -/
theorem allocate_eq_error {e : AllocError} (h : allocate r id size alignment device = (.error e, r')) :
    r' = r ∨ ((r.allocator id).allocate ⟨size, alignment, device⟩).1 = none ∧
      r' = r.setAllocator id ((r.allocator id).allocate ⟨size, alignment, device⟩).2 := by
  unfold allocate at h
  by_cases h0 : size = 0
  · simp only [h0, if_true, Prod.mk.injEq] at h
    exact .inl h.2.symm
  · rw [if_neg h0] at h
    cases hd : device.isAvailable with
    | false =>
      simp only [hd, Bool.not_false, if_true, Prod.mk.injEq] at h
      exact .inl h.2.symm
    | true =>
      simp only [hd, Bool.not_true, Bool.false_eq_true, if_false, Allocator.allocateZeroed] at h
      cases ha : ((r.allocator id).allocate ⟨size, alignment, device⟩).1 with
      | none =>
        simp only [ha, Option.map_none, Prod.mk.injEq] at h
        exact .inr ⟨rfl, h.2.symm⟩
      | some address => simp [ha] at h

end Buffer

@[simp] theorem Arena.nextBuffer_disposeAll (a : Arena) (r : Resources) :
    (a.disposeAll r).nextBuffer = r.nextBuffer := by
  unfold disposeAll
  induction a.values generalizing r with
  | nil => rfl
  | cons b bs ih => rw [List.foldl_cons, ih, Buffer.nextBuffer_dispose]

namespace Workspace

open Context

/-! ### Changes -/

/-- One change to a workspace. A buffer that is given back has a name from `n` on. -/
inductive Effect (n : BufferId) : Workspace → Workspace → Prop
  | write {c c' : Context} {r : Resources} (same : c'.blank = c.blank) : Effect n ⟨c, r⟩ ⟨c', r⟩
  | refuse {c : Context} {r r' : Resources} {size alignment : Nat} {device : Device} {e : AllocError}
      (failed : Buffer.allocate r c.allocator size alignment device = (.error e, r')) : Effect n ⟨c, r⟩ ⟨c, r'⟩
  | make {c : Context} {r r' : Resources} {size alignment : Nat} {device : Device} {b : Buffer}
      (made : Buffer.allocate r c.allocator size alignment device = (.ok b, r')) :
      Effect n ⟨c, r⟩ ⟨{ c with arena := (c.arena.add r' b).2.1 }, (c.arena.add r' b).2.2⟩
  | lend {c : Context} {r : Resources} (contents : Bytes) :
      Effect n ⟨c, r⟩ ⟨c, { r with callerMemory := r.callerMemory ++ [contents] }⟩
  | wrap {c : Context} {r r' : Resources} (address : Address) (contents : Bytes) (device : Device) {b : Buffer}
      (lent : r' = { r with callerMemory := r.callerMemory ++ [contents] })
      (made : b = .foreign r.callerMemory.length address contents device) :
      Effect n ⟨c, r⟩ ⟨{ c with arena := (c.arena.add r' b).2.1 }, (c.arena.add r' b).2.2⟩
  | dispose (w : Workspace) {id : BufferId} (new : n ≤ id) : Effect n w (w.dispose id)

abbrev Effects (n : BufferId) : Workspace → Workspace → Prop := Relation.ReflTransGen (Effect n)

variable {n : BufferId} {w w' w₁ w₂ : Workspace}

/-! ### What effects keep -/

/-- `w'` has come from `w`: it has the same allocator, new buffers have new names, and the buffers with names below
`n` are still there, all but their bytes unchanged. -/
structure Grows (n : BufferId) (w w' : Workspace) : Prop where
  allocator : w'.context.allocator = w.context.allocator
  next_le : w.resources.nextBuffer ≤ w'.resources.nextBuffer
  fresh : ∀ {id}, w'.context.arena.contains id = true → w.context.arena.contains id = true ∨
    w.resources.nextBuffer ≤ id ∧ id < w'.resources.nextBuffer
  kept : ∀ {id}, id < n → id < w.resources.nextBuffer →
    (w'.context.arena.get? id).map Buffer.blank = (w.context.arena.get? id).map Buffer.blank

theorem Grows.refl (n : BufferId) (w : Workspace) : Grows n w w := ⟨rfl, Nat.le_refl _, .inl, fun _ _ => rfl⟩

theorem Grows.trans (h₁ : Grows n w w₁) (h₂ : Grows n w₁ w₂) : Grows n w w₂ where
  allocator := h₂.allocator.trans h₁.allocator
  next_le := h₁.next_le.trans h₂.next_le
  fresh {id} hid := by
    have hle := h₁.next_le
    have hle' := h₂.next_le
    rcases h₂.fresh hid with hid | hnew
    · rcases h₁.fresh hid with hid | hnew
      · exact .inl hid
      · exact .inr (by lia)
    · exact .inr (by lia)
  kept {id} hn hid := (h₂.kept hn (Nat.lt_of_lt_of_le hid h₁.next_le)).trans (h₁.kept hn hid)

theorem get?_blank (c : Context) (id : BufferId) : c.blank.arena.get? id = (c.arena.get? id).map Buffer.blank :=
  Table.get?_map _ _ _

private theorem grows_of_blank {c c' : Context} {r : Resources} (h : c'.blank = c.blank) : Grows n ⟨c, r⟩ ⟨c', r⟩ where
  allocator := congrArg (·.allocator) h
  next_le := Nat.le_refl _
  fresh {id} hid := by
    left
    have hget := congrArg (fun c => (c.arena.get? id).isSome) h
    simp only [get?_blank, Option.isSome_map] at hget
    exact hget.symm.trans hid
  kept {id} _ _ := by
    rw [← get?_blank, ← get?_blank, h]

private theorem grows_of_context {c : Context} {r r' : Resources} (h : r'.nextBuffer = r.nextBuffer) :
    Grows n ⟨c, r⟩ ⟨c, r'⟩ := ⟨rfl, h.ge, .inl, fun _ _ => rfl⟩

private theorem grows_add {c : Context} {r r' : Resources} (h : r'.nextBuffer = r.nextBuffer) (b : Buffer) :
    Grows n ⟨c, r⟩ ⟨{ c with arena := (c.arena.add r' b).2.1 }, (c.arena.add r' b).2.2⟩ where
  allocator := rfl
  next_le := by
    show r.nextBuffer ≤ r'.nextBuffer + 1
    lia
  fresh {id} hid := by
    simp only [Arena.add, Table.contains, Table.get?_insert] at hid ⊢
    by_cases hnew : id = r'.nextBuffer
    · exact .inr (by lia)
    · rw [if_neg hnew] at hid
      exact .inl hid
  kept {id} _ hid := by
    simp only [Arena.add, Table.get?_insert]
    rw [if_neg (by simp only at hid; lia)]

@[simp] theorem nextBuffer_dispose (w : Workspace) (id : BufferId) :
    (w.dispose id).resources.nextBuffer = w.resources.nextBuffer := by
  unfold Workspace.dispose Arena.dispose
  cases w.context.arena.get? id <;> simp

theorem get?_dispose (w : Workspace) (id j : BufferId) :
    (w.dispose id).context.arena.get? j = if j = id then none else w.context.arena.get? j := by
  unfold Workspace.dispose Arena.dispose
  cases hb : w.context.arena.get? id with
  | none =>
    simp only
    by_cases hj : j = id
    · rw [if_pos hj, hj, hb]
    · rw [if_neg hj]
  | some b => exact Table.get?_erase _ _ _

theorem grows_dispose (w : Workspace) {id : BufferId} (h : n ≤ id) : Grows n w (w.dispose id) where
  allocator := rfl
  next_le := by simp
  fresh {j} hj := by
    left
    rw [Table.contains, get?_dispose] at hj
    split at hj
    · simp at hj
    · exact hj
  kept {j} hj _ := by rw [get?_dispose, if_neg (by lia)]

theorem Effect.grows (h : Effect n w w') : Grows n w w' := by
  cases h with
  | write same => exact grows_of_blank same
  | refuse failed =>
    apply grows_of_context
    rcases Buffer.allocate_eq_error failed with rfl | ⟨-, rfl⟩ <;> rfl
  | make made =>
    obtain ⟨_, -, -, -, -, rfl⟩ := Buffer.allocate_eq_ok made
    refine grows_add ?_ _
    rfl
  | lend contents => exact grows_of_context rfl
  | wrap address contents device lent made =>
    subst lent
    refine grows_add ?_ _
    rfl
  | dispose _ new => exact grows_dispose w new

theorem Effects.grows (h : Effects n w w') : Grows n w w' := by
  induction h with
  | refl => exact .refl n w
  | tail _ step ih => exact ih.trans step.grows

end Workspace

end StridedTensor
