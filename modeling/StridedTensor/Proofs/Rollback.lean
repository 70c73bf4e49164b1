import StridedTensor.Proofs.Assignment
import StridedTensor.Proofs.Conservation

/-!
# Failed commands

A command that reports an error leaves contexts and tensors as they were, and what it has taken from an allocator it
has given back (`Session.Run.restores`). It fails before it writes anything, or all that it has written is in a buffer
that it has made itself (`Workspace.Undone`).
-/

namespace StridedTensor

/-! ### Allocators -/

namespace Allocator

variable {a : Allocator} {request : Request} {address : Address}

/-- What an allocator has come to while an operation failed: nothing has been asked of it, or it has refused, or it has
got back what it gave. -/
structure Settles (a a' : Allocator) : Prop where
  calls : a'.calls = a.calls ∨ (∃ request, a'.calls = .allocate request none :: a.calls) ∨
    ∃ request address, a'.calls = .free address request :: .allocate request (some address) :: a.calls
  tracked : a'.ledger.isSome = a.ledger.isSome
  accounts : a.provider.Fresh → ∀ {blocks}, a.Accounts blocks → a'.Accounts blocks

theorem Settles.refl (a : Allocator) : a.Settles a := ⟨.inl rfl, rfl, fun _ _ h => h⟩

private theorem settles_refuse (h : (a.allocate request).1 = none) : a.Settles (a.allocate request).2 where
  calls := by
    refine .inr (.inl ⟨request, ?_⟩)
    rw [← h]
    rfl
  tracked := Option.isSome_map
  accounts _ _ ha := ha.refuse h

/-- What has just been entered can be struck out. -/
private theorem settles_giveBack (h : (a.allocate request).1 = some address) :
    a.Settles ((a.allocate request).2.free (some address) request) := by
  have hcalls : (a.allocate request).2.calls = .allocate request (some address) :: a.calls := by
    rw [← h]
    rfl
  have hledger : (a.allocate request).2.ledger = a.ledger.map (·.record request.size (some address)) := by
    rw [← h]
    rfl
  have hfree : ((a.allocate request).2.free (some address) request).calls =
        .free address request :: .allocate request (some address) :: a.calls ∧
      ((a.allocate request).2.free (some address) request).ledger.isSome = a.ledger.isSome := by
    unfold free
    rw [hledger]
    cases a.ledger with
    | none => exact ⟨congrArg (Call.free address request :: ·) hcalls, rfl⟩
    | some l =>
      have hentered : (l.record request.size (some address)).blocks.contains address = true :=
        Table.contains_eq_true.2 ⟨request.size, by rw [Ledger.record, Table.get?_insert, if_pos rfl]⟩
      simp only [Option.map_some, Ledger.strike?, hentered, if_true, hcalls, Option.isSome_some, and_self]
  exact ⟨.inr (.inr ⟨request, address, hfree.1⟩), hfree.2, fun hfresh _ ha => (ha.allocate hfresh h).free⟩

end Allocator

private theorem Context.set_atomic {c : Context} {t : Tensor} {index : List Nat} {value : Scalar}
    (h : (c.set t index value).1 ≠ .ok ()) : (c.set t index value).2 = c := by
  unfold set at h ⊢
  split
  · rfl
  · rename_i offset ho
    rw [ho] at h
    exact updateHost_atomic h

/-- A buffer that is made and disposed of again. -/
private theorem Buffer.dispose_made {r r' : Resources} {id : AllocatorId} {size alignment : Nat} {device : Device}
    {b : Buffer}
    (hid : id < r.allocators.length) (made : allocate r id size alignment device = (.ok b, r')) (next : BufferId) :
    (b.dispose { r' with nextBuffer := next }).callerMemory = r.callerMemory ∧
      (∀ j, j ≠ id → (b.dispose { r' with nextBuffer := next }).allocator j = r.allocator j) ∧
      (r.allocator id).Settles ((b.dispose { r' with nextBuffer := next }).allocator id) := by
  obtain ⟨address, hsome, -, -, rfl, rfl⟩ := allocate_eq_ok made
  have hmade : ∀ j, Resources.allocator { r.setAllocator id ((r.allocator id).allocate ⟨size, alignment, device⟩).2 with
      nextBuffer := next } j = if j = id then ((r.allocator id).allocate ⟨size, alignment, device⟩).2 else r.allocator j :=
    Resources.allocator_setAllocator hid _
  unfold dispose
  refine ⟨rfl, fun j hj => ?_, ?_⟩ <;>
    rw [Resources.allocator_setAllocator (by rwa [Resources.length_allocators_setAllocator])]
  · rw [if_neg hj, hmade, if_neg hj]
  · rw [if_pos rfl, hmade, if_pos rfl, Buffer.size, Array.size_replicate]
    exact Allocator.settles_giveBack hsome

/-! ### Operations that make a tensor -/

namespace Workspace

variable {w w' : Workspace} {shape : Shape} {type : ElementType} {device : Device} {t : Tensor} {e : Failure}

/-- What an operation that has failed can leave behind. The context is what it was. -/
inductive Undone (w : Workspace) : Workspace → Prop
  | unchanged : Undone w w
  | lend (contents : Bytes) :
      Undone w ⟨w.context, { w.resources with callerMemory := w.resources.callerMemory ++ [contents] }⟩
  | refuse {size alignment : Nat} {device : Device} {e : AllocError} {r : Resources}
      (failed : Buffer.allocate w.resources w.context.allocator size alignment device = (.error e, r)) :
      Undone w ⟨w.context, r⟩
  | giveBack {size alignment : Nat} {device : Device} {b : Buffer} {r : Resources}
      (made : Buffer.allocate w.resources w.context.allocator size alignment device = (.ok b, r)) :
      Undone w ⟨w.context, b.dispose { r with nextBuffer := w.resources.nextBuffer + 1 }⟩

private theorem Allocated.undone (h : Allocated w shape type device (.error e, w')) : Undone w w' := by
  cases h with
  | stop => exact .unchanged
  | refuse failed => exact .refuse failed

theorem Allocated.validate (h : Allocated w shape type device (.ok t, w')) : w'.context.validate t = .ok () := by
  cases h with
  | make made => exact made.validate
  | @empty l numel canonical cpu =>
    have hshape : l.shape = shape := (Layout.distance_canonical canonical).1
    have hn : Tensor.numel ⟨none, 0, type, device, l, false⟩ = .ok 0 := by
      rw [← numel, ← hshape]
      rfl
    refine Context.validate_iff.2 ⟨Tensor.validate_eq_ok.2 ⟨cpu, fun _ => ⟨rfl, hn⟩, by simp, ?_⟩, by simp⟩
    exact ⟨_, Tensor.span_of_empty hn⟩

private theorem alloc_undone {extents : List Nat} (h : w.alloc extents type device = (.error e, w')) : Undone w w' := by
  unfold alloc at h
  split at h
  · rename_i shape _
    have halloc := w.allocShape_allocated shape type device
    rw [h] at halloc
    exact halloc.undone
  · obtain ⟨-, rfl⟩ := Prod.mk.inj h
    exact .unchanged

/-- The data fit into what has been made for them. -/
private theorem updateHost_made {data : List (BitVec type.width)} (hn : shape.numel = .ok data.length)
    (h : Allocated w shape type device (.ok t, w')) :
    ∃ c, w'.context.updateHost t (fun contents => contents.setElement 0 (data.flatMap type.encode)) = (.ok (), c) := by
  have hlength : (data.flatMap type.encode).length = data.length * type.size := by simp [List.length_flatMap]
  have hroom : 0 + (data.flatMap type.encode).length ≤ (w'.context.contents t).size := by
    rw [Nat.zero_add, hlength]
    cases h with
    | empty numel =>
      have hzero : data.length = 0 := Except.ok.inj (hn.symm.trans numel)
      simp [hzero]
    | @make n l b r made =>
      obtain rfl : data.length = n := Except.ok.inj (hn.symm.trans made.numel)
      obtain ⟨_, -, -, -, rfl, -⟩ := Buffer.allocate_eq_ok made.allocate
      rw [Context.contents_eq rfl ((get?_insertNext _ _ _ _).trans (if_pos rfl)), Array.size_replicate]
  exact ⟨_, (Context.hosts_of_validate h.validate).updateHost (Bytes.setElement_of_le hroom)⟩

private theorem ofList_undone {data : List (BitVec type.width)} {extents : List Nat}
    (h : w.ofList type data extents device = (.error e, w')) : Undone w w' := by
  unfold ofList at h
  split at h
  · obtain ⟨-, rfl⟩ := Prod.mk.inj h
    exact .unchanged
  · rename_i shape _
    split at h
    · obtain ⟨-, rfl⟩ := Prod.mk.inj h
      exact .unchanged
    · rename_i count hcount
      split at h
      · obtain ⟨-, rfl⟩ := Prod.mk.inj h
        exact .unchanged
      · rename_i hlength
        rw [not_not] at hlength
        have halloc := w.allocShape_allocated shape type device
        split at h
        · rename_i e' w₁ hr
          obtain ⟨-, rfl⟩ := Prod.mk.inj h
          rw [hr] at halloc
          exact halloc.undone
        · rename_i t w₁ hr
          rw [hr] at halloc
          obtain ⟨c, hc⟩ := updateHost_made (hlength ▸ hcount) halloc
          simp [hc] at h

private theorem ofScalar_undone {value : Scalar} (h : w.ofScalar value device = (.error e, w')) : Undone w w' := by
  have halloc := w.allocShape_allocated .empty value.type device
  unfold ofScalar at h
  split at h
  · rename_i e' w₁ hr
    obtain ⟨-, rfl⟩ := Prod.mk.inj h
    rw [hr] at halloc
    exact halloc.undone
  · rename_i t w₁ hr
    rw [hr] at halloc
    have hhosts := Context.hosts_of_validate halloc.validate
    obtain ⟨offsets, ho, -⟩ := hhosts.offsets
    rw [hhosts.fill ho value] at h
    simp at h

private theorem duplicate_undone (hfree : w.context.arena.get? w.resources.nextBuffer = none) {source : Tensor}
    (h : w.duplicate source device = (.error e, w')) : Undone w w' := by
  have halloc := w.allocShape_allocated source.shape source.type device
  unfold duplicate at h
  split at h
  · rename_i e' w₁ hr
    obtain ⟨-, rfl⟩ := Prod.mk.inj h
    rw [hr] at halloc
    exact halloc.undone
  · rename_i t w₁ hr
    rw [hr] at halloc
    split at h
    · simp at h
    · rename_i e' c hcopy
      obtain ⟨-, rfl⟩ := Prod.mk.inj h
      have hc : c = w₁.context := by
        have hkept : (w₁.context.copy source t).2 = w₁.context := Context.copy_atomic (by simp [hcopy])
        rwa [hcopy] at hkept
      subst hc
      cases halloc with
      | empty => exact .unchanged
      | @make n l b r made =>
        rw [show (⟨(w.insertNext b r).context, (w.insertNext b r).resources⟩ : Workspace) = w.insertNext b r from rfl,
          release_made hfree]
        exact .giveBack made.allocate

private theorem toDevice_undone (hfree : w.context.arena.get? w.resources.nextBuffer = none) {source : Tensor}
    (h : w.toDevice source device = (.error e, w')) : Undone w w' := by
  unfold toDevice at h
  split at h
  · simp at h
  · split at h
    · obtain ⟨-, rfl⟩ := Prod.mk.inj h
      exact .unchanged
    · exact duplicate_undone hfree h

/-- Memory that is lent in vain is with the caller, as before. -/
private theorem wrap_undone {address : Address} {contents : Bytes} {extents : List Nat} {e : TensorError}
    (h : w.wrap address contents extents type device = (Result.reject e, w')) : Undone w w' := by
  unfold wrap at h
  simp only at h
  split at h
  · obtain ⟨-, rfl⟩ := Prod.mk.inj h
    exact .lend contents
  · split at h
    · obtain ⟨-, rfl⟩ := Prod.mk.inj h
      exact .lend contents
    · rename_i shape _ _ _ _
      split at h
      · obtain ⟨-, rfl⟩ := Prod.mk.inj h
        exact .lend contents
      · unfold Tensor.borrowed at h
        cases hl : Layout.canonical shape type with
        | ok l => simp [hl, Result.reject] at h
        | error e' =>
          obtain rfl := Layout.error_of_canonical hl
          simp [hl, Result.reject] at h

private theorem detach_undone (h : w.detach t = (.error e, w')) : w' = w := by
  unfold detach at h
  split at h
  · exact (Prod.mk.inj h).2.symm
  · split at h
    · exact (Prod.mk.inj h).2.symm
    · split at h
      · exact (Prod.mk.inj h).2.symm
      · simp at h

end Workspace

/-! ### Commands -/

namespace Session

open Workspace

variable {s s' : Session} {k : Nat} {c : Context} {home : BufferId → Option Nat}

private theorem bindResult_undone {out : Handle} {o : Result Tensor × Workspace} {e : TensorError}
    (h : ∀ w', o = (Result.reject e, w') → Undone ⟨c, s.resources⟩ w')
    (hstep : s.bindResult k out o = (Result.reject e, s')) :
    ∃ w', Undone ⟨c, s.resources⟩ w' ∧ s' = s.setWorkspace k w' := by
  obtain ⟨r, w⟩ := o
  cases r with
  | ok t => simp [bindResult, Result.reject] at hstep
  | error e' =>
    obtain ⟨he, rfl⟩ := Prod.mk.inj hstep
    obtain rfl : e' = .error e := Except.error.inj he
    exact ⟨w, h w rfl, rfl⟩

private theorem readBack_undone {t : Tensor} {o : Result Unit × Context} {e : TensorError}
    (h : o.1 ≠ .ok () → o.2 = c) (hstep : s.readBack k s.resources t o = (Result.reject e, s')) :
    s' = s.setWorkspace k ⟨c, s.resources⟩ := by
  obtain ⟨r, c'⟩ := o
  cases r with
  | ok _ =>
    -- what the tensor holds is reported even if it cannot be read
    have hreply := congrArg Prod.fst hstep
    simp only [readBack] at hreply
    split at hreply <;> simp [Result.reject, Result.halt] at hreply
  | error e' =>
    obtain rfl : c' = c := h (by simp)
    exact (Prod.mk.inj hstep).2.symm

/-- Whichever command reports an error, its operation is undone. -/
theorem step_undone (hc : s.context? k = some c) (hfree : c.arena.get? s.resources.nextBuffer = none)
    {command : Command} {e : TensorError} (h : s.step k command = some (Result.reject e, s')) :
    ∃ w', Undone ⟨c, s.resources⟩ w' ∧ s' = s.setWorkspace k w' := by
  have hsame : ∀ {s'}, s' = s → ∃ w', Undone ⟨c, s.resources⟩ w' ∧ s' = s.setWorkspace k w' := fun hs' =>
    ⟨_, .unchanged, by rw [setWorkspace_self hc, hs']⟩
  unfold step at h
  simp only [hc, Option.bind_eq_bind, Option.bind_some, Option.pure_def] at h
  cases command
  all_goals simp only [Option.bind_eq_some_iff, Option.some.injEq] at h
  case null out extents type device =>
    exact bindResult_undone (fun w' hw => (Prod.mk.inj hw).2 ▸ .unchanged) h
  case alloc out extents type device => exact bindResult_undone (fun w' => alloc_undone) h
  case ofList out type data extents device => exact bindResult_undone (fun w' => ofList_undone) h
  case ofScalar out value device => exact bindResult_undone (fun w' => ofScalar_undone) h
  case wrap out address contents extents type device => exact bindResult_undone (fun w' => wrap_undone) h
  case contiguous out x =>
    obtain ⟨t, -, h⟩ := h
    exact bindResult_undone (fun w' => duplicate_undone hfree) h
  case toDevice out x device =>
    obtain ⟨t, -, h⟩ := h
    exact bindResult_undone (fun w' => toDevice_undone hfree) h
  case view out x op =>
    obtain ⟨t, -, h⟩ := h
    exact bindResult_undone (fun w' hw => (Prod.mk.inj hw).2 ▸ .unchanged) h
  case set x index value =>
    obtain ⟨t, -, h⟩ := h
    exact ⟨_, .unchanged, readBack_undone Context.set_atomic h⟩
  case fill x value =>
    obtain ⟨t, -, h⟩ := h
    exact ⟨_, .unchanged, readBack_undone Context.updateHost_atomic h⟩
  case copy source target =>
    obtain ⟨t, -, u, -, h⟩ := h
    exact ⟨_, .unchanged, readBack_undone Context.copy_atomic h⟩
  case kernel call =>
    obtain ⟨operands, -, h⟩ := h
    exact ⟨_, .unchanged, readBack_undone (c.launch_confined operands).atomic h⟩
  case release x =>
    obtain ⟨t, -, h⟩ := h
    simp [Result.reject] at h
  case detach x =>
    obtain ⟨t, -, h⟩ := h
    cases hd : Workspace.detach ⟨c, s.resources⟩ t with
    | mk r w =>
      rw [hd] at h
      cases r with
      | ok _ => simp [Result.reject, Except.map] at h
      | error e' =>
        obtain rfl := detach_undone hd
        exact ⟨_, .unchanged, (Prod.mk.inj h).2.symm⟩
  case drop => simp [Result.reject] at h
  case context => exact hsame (Prod.mk.inj h).2.symm
  case pair x y =>
    obtain ⟨_, -, _, -, h⟩ := h
    exact hsame (Prod.mk.inj h).2.symm
  all_goals
    obtain ⟨_, -, h⟩ := h
    exact hsame (Prod.mk.inj h).2.symm

/-- In `s'` there is what there was in `s`, but for traces with the allocator `id`. -/
structure Restores (s s' : Session) (id : AllocatorId) : Prop where
  contexts : s'.contexts = s.contexts
  tensors : s'.tensors = s.tensors
  /-- Whoever has lent memory finds it as it was. -/
  callerMemory : s.resources.callerMemory <+: s'.resources.callerMemory
  others : ∀ {j}, j ≠ id → s'.resources.allocator j = s.resources.allocator j
  /-- The allocator has not been asked, or it has refused, or it has got back at once what it gave. -/
  calls : (s'.resources.allocator id).calls = (s.resources.allocator id).calls ∨
    (∃ request, (s'.resources.allocator id).calls = .allocate request none :: (s.resources.allocator id).calls) ∨
    ∃ request address, (s'.resources.allocator id).calls =
      .free address request :: .allocate request (some address) :: (s.resources.allocator id).calls
  ledger : (s.resources.allocator id).provider.Fresh → ∀ {l}, (s.resources.allocator id).ledger = some l →
    ∃ l', (s'.resources.allocator id).ledger = some l' ∧ l'.live = l.live ∧ l'.liveBytes = l.liveBytes

private theorem settles_of_undone {r : Resources} {c : Context} {w' : Workspace}
    (hid : c.allocator < r.allocators.length) (h : Undone ⟨c, r⟩ w') :
    w'.context = c ∧ r.callerMemory <+: w'.resources.callerMemory ∧
      (∀ j, j ≠ c.allocator → w'.resources.allocator j = r.allocator j) ∧
      (r.allocator c.allocator).Settles (w'.resources.allocator c.allocator) := by
  have hset := fun a j => Resources.allocator_setAllocator (r := r) hid a j
  cases h with
  | unchanged => exact ⟨rfl, List.prefix_rfl, fun _ _ => rfl, .refl _⟩
  | lend contents => exact ⟨rfl, List.prefix_append _ _, fun _ _ => rfl, .refl _⟩
  | refuse failed =>
    rcases Buffer.allocate_eq_error failed with rfl | ⟨hnone, rfl⟩
    · exact ⟨rfl, List.prefix_rfl, fun _ _ => rfl, .refl _⟩
    · refine ⟨rfl, List.prefix_rfl, fun j hj => by rw [hset, if_neg hj], ?_⟩
      rw [hset, if_pos rfl]
      exact Allocator.settles_refuse hnone
  | giveBack made =>
    obtain ⟨hmemory, hothers, hsettles⟩ := Buffer.dispose_made hid made (r.nextBuffer + 1)
    exact ⟨rfl, hmemory ▸ List.prefix_rfl, hothers, hsettles⟩

/-- A command that reports an error leaves every context and every tensor as it was, and gives back what it has taken
from the allocator of its context. The ledger stays, if the allocator never hands out an address that is live. -/
theorem Run.restores (h : Run home s) (hc : s.context? k = some c) {command : Command} {e : TensorError}
    (hstep : s.step k command = some (Result.reject e, s')) : Restores s s' c.allocator := by
  have hallocator := h.placed.allocator hc
  have hbalanced : Holdings.Balanced s.holdings := h.exchanges.balanced Holdings.balanced_initial
  obtain ⟨w', hundone, rfl⟩ := step_undone hc (h.coherent.unknown_nextBuffer.1 k c hc) hstep
  obtain ⟨hcontext, hmemory, hothers, hsettles⟩ := settles_of_undone hallocator hundone
  refine ⟨?_, rfl, hmemory, fun {j} => hothers j, hsettles.calls, fun hfresh {l} hl => ?_⟩
  · have hself := congrArg (·.contexts) (setWorkspace_self hc)
    rw [← hcontext] at hself
    exact hself
  · obtain ⟨l', hl'⟩ := Option.isSome_iff_exists.1 (hsettles.tracked.trans (Option.isSome_iff_exists.2 ⟨l, hl⟩))
    have haccounts := hbalanced.accounts c.allocator hallocator hfresh
    have hlists := haccounts.ledger l hl
    have hlists' := (hsettles.accounts hfresh haccounts).ledger l' hl'
    exact ⟨l', hl', hlists'.live_eq.trans hlists.live_eq.symm, hlists'.liveBytes_eq.trans hlists.liveBytes_eq.symm⟩

/-! ### A copy of a tensor that has been released -/

/-- The copy has got its memory before it turns out that there is nothing to copy. -/
def staleCopy : List Event := [.register "tracking" .system true, .build { allocator := some 1 },
  .command 0 (.alloc "a" [2, 3] .f32 .cpu), .command 0 (.alloc "b" [4] .f64 .cpu),
  .command 0 (.view "v" "a" .transpose), .command 0 (.release "a")]

theorem staleCopy_restores : ∃ s c s', initial.performAll staleCopy = some s ∧ s.context? 0 = some c ∧
    s.step 0 (.contiguous "c" "v") = some (Result.reject (.released 0), s') ∧ Restores s s' 1 ∧
    (s.resources.allocator 1).provider.Fresh ∧ ((s.resources.allocator 1).ledger.map (·.live)) = some 1 := by
  obtain ⟨s, hs⟩ : ∃ s, initial.performAll staleCopy = some s := Option.isSome_iff_exists.1 rfl
  have hcontext : ((initial.performAll staleCopy).bind (·.context? 0)).map (·.allocator) = some 1 := rfl
  have hstep : ((initial.performAll staleCopy).bind (·.step 0 (.contiguous "c" "v"))).map Prod.fst =
      some (Result.reject (.released 0)) := rfl
  have hprovider : (initial.performAll staleCopy).map (·.resources.allocator 1 |>.provider) = some .system := rfl
  have hlive : ((initial.performAll staleCopy).bind (·.resources.allocator 1 |>.ledger)).map (·.live) = some 1 := rfl
  simp only [hs, Option.bind_some, Option.map_some, Option.some.injEq] at hcontext hstep hprovider hlive
  obtain ⟨c, hc, hallocator⟩ := Option.map_eq_some_iff.1 hcontext
  obtain ⟨⟨reply, s'⟩, hstep, rfl⟩ := Option.map_eq_some_iff.1 hstep
  obtain ⟨home, hrun⟩ := Run.initial.performAll hs
  have hrestores := hrun.restores hc hstep
  rw [hallocator] at hrestores
  exact ⟨s, c, s', hs, hc, hstep, hrestores, hprovider ▸ Provider.fresh_system, hlive⟩

end Session

end StridedTensor
