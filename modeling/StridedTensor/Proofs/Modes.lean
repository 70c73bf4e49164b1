import StridedTensor.Proofs.Creation
import StridedTensor.Proofs.Permanence

/-!
# Lenient runs

A run in which one context is lenient takes the same course as the run in which it is strict: the buffers, their bytes,
the accounts of the allocators and the tensors are the same after every step, and so is every answer, except that a
kernel which fails a precondition succeeds without doing anything (`Session.performAll_loosen`). Strictness is looked at
in kernels only, and there after everything else (`Context.launch_mapMode`).
-/

namespace StridedTensor

/-! ### Operations that do not look at strictness -/

namespace Context

variable (g : Bool → Bool)

/-- The context but for its strictness. -/
def mapMode (c : Context) : Context := { c with strict := g c.strict }

variable {g} in
private theorem mapMode_eq_self {c : Context} (h : g c.strict = c.strict) : c.mapMode g = c := by
  unfold mapMode
  rw [h]

private theorem updateHost_mapMode (c : Context) (t : Tensor) (f : Bytes → Result Bytes) :
    (c.mapMode g).updateHost t f = Prod.map id (mapMode g) (c.updateHost t f) := by
  have hset : ∀ contents, (c.mapMode g).setContents t contents = (c.setContents t contents).mapMode g := by
    intro contents
    unfold setContents
    rw [show (c.mapMode g).arena = c.arena from rfl]
    cases t.buffer with
    | none => rfl
    | some id =>
      simp only
      split <;> rfl
  unfold updateHost
  rw [show (c.mapMode g).host t = c.host t from rfl]
  split
  · rw [hset]; rfl
  · rfl

private theorem set_mapMode (c : Context) (t : Tensor) (index : List Nat) (value : Scalar) :
    (c.mapMode g).set t index value = Prod.map id (mapMode g) (c.set t index value) := by
  unfold set
  split
  · rfl
  · exact updateHost_mapMode g c t _

private theorem fill_mapMode (c : Context) (t : Tensor) (value : Scalar) :
    (c.mapMode g).fill t value = Prod.map id (mapMode g) (c.fill t value) := updateHost_mapMode g c t _

private theorem copy_mapMode (c : Context) (source target : Tensor) :
    (c.mapMode g).copy source target = Prod.map id (mapMode g) (c.copy source target) := by
  unfold copy
  rw [show (c.mapMode g).gather source = c.gather source from rfl]
  split
  · rfl
  · exact updateHost_mapMode g c target _

/-- A kernel leaves the same behind whatever the context makes of its result. -/
theorem launch_mapMode (c : Context) (call : KernelCall Tensor) :
    ((c.mapMode g).launch call).1 = (c.mapMode g).lenient () (c.strictly.launch call).1 ∧
      ((c.mapMode g).launch call).2 = (c.launch call).2.mapMode g := by
  obtain ⟨r, c₁, hl, hs⟩ := launch_eq c call
  obtain ⟨r', c₂, hl', hs'⟩ := launch_eq (c.mapMode g) call
  obtain ⟨rfl, hsame⟩ : r = r' ∧ c₁.strictly = c₂.strictly := Prod.mk.inj (hs.symm.trans hs')
  have hstrict₁ := congrArg (·.strict) (launch_confined c call).within.blank
  have hstrict₂ := congrArg (·.strict) (launch_confined (c.mapMode g) call).within.blank
  rw [hl] at hstrict₁
  rw [hl'] at hstrict₂
  rw [hl, hl', hs]
  refine ⟨rfl, ?_⟩
  -- they agree but for strictness, which is that of the context
  obtain ⟨_, _, _, _⟩ := c₁
  obtain ⟨_, _, _, _⟩ := c₂
  simp only [strictly, blank, mapMode, mk.injEq, true_and] at hsame hstrict₁ hstrict₂ ⊢
  exact ⟨hsame.1.symm, hsame.2.1.symm, by rw [hstrict₂, hstrict₁], hsame.2.2.symm⟩

private theorem reduceAll_mapMode (c : Context) (op : ReduceOp) (t : Tensor) :
    (c.mapMode g).reduceAll op t = (c.mapMode g).lenient default (c.strictly.reduceAll op t) := by
  unfold reduceAll
  rw [lenient_of_strict (show c.strictly.strict = true from rfl)]
  rfl

end Context

namespace Workspace

variable (g : Bool → Bool)

def mapMode (w : Workspace) : Workspace := ⟨w.context.mapMode g, w.resources⟩

private theorem allocShape_mapMode (w : Workspace) (shape : Shape) (type : ElementType) (device : Device) :
    (w.mapMode g).allocShape shape type device = Prod.map id (mapMode g) (w.allocShape shape type device) := by
  simp only [allocShape, mapMode, Context.mapMode]
  split
  · rfl
  · split
    · rfl
    · rfl
    · split
      · rfl
      · split <;> rfl

private theorem release_mapMode (w : Workspace) (t : Tensor) :
    (w.mapMode g).release t = Prod.map id (mapMode g) (w.release t) := by
  unfold release
  rw [show (w.mapMode g).context.arena = w.context.arena from rfl]
  by_cases h : t.buffer.any (fun id => t.ownership && !w.context.arena.contains id) = true
  · rw [if_pos h, if_pos h]
    rfl
  · rw [if_neg h, if_neg h]
    cases t.disown with
    | mk id t => cases id <;> rfl

private theorem wrap_mapMode (w : Workspace) (address : Address) (contents : Bytes) (extents : List Nat)
    (type : ElementType) (device : Device) :
    (w.mapMode g).wrap address contents extents type device =
      Prod.map id (mapMode g) (w.wrap address contents extents type device) := by
  simp only [wrap, mapMode, Context.mapMode]
  split
  · rfl
  · split
    · rfl
    · split <;> rfl

private theorem detach_mapMode (w : Workspace) (t : Tensor) :
    (w.mapMode g).detach t = Prod.map id (mapMode g) (w.detach t) := by
  unfold detach
  rw [show (w.mapMode g).context.arena = w.context.arena from rfl]
  split
  · rfl
  · split
    · rfl
    · split <;> rfl

private theorem settle_mapMode (w : Workspace) (t : Tensor) (o : Result Unit × Context) :
    (w.mapMode g).settle t (Prod.map id (Context.mapMode g) o) = Prod.map id (mapMode g) (w.settle t o) := by
  obtain ⟨r, c⟩ := o
  cases r with
  | ok _ => rfl
  | error e => exact congrArg (fun o => (Except.error e, o.2)) (release_mapMode g ⟨c, w.resources⟩ t)

private theorem ofList_mapMode (w : Workspace) (type : ElementType) (data : List (BitVec type.width))
    (extents : List Nat)
    (device : Device) :
    (w.mapMode g).ofList type data extents device = Prod.map id (mapMode g) (w.ofList type data extents device) := by
  unfold ofList
  split
  · rfl
  · split
    · rfl
    · split
      · rfl
      · rw [allocShape_mapMode]
        cases w.allocShape _ type device with
        | mk r w₁ =>
          cases r with
          | error e => rfl
          | ok t =>
            have hwrite := Context.updateHost_mapMode g w₁.context t fun contents =>
              contents.setElement 0 (data.flatMap type.encode)
            exact (congrArg ((w₁.mapMode g).settle t) hwrite).trans (settle_mapMode g w₁ t _)

private theorem duplicate_mapMode (w : Workspace) (source : Tensor) (device : Device) :
    (w.mapMode g).duplicate source device = Prod.map id (mapMode g) (w.duplicate source device) := by
  unfold duplicate
  rw [allocShape_mapMode]
  cases w.allocShape source.shape source.type device with
  | mk r w₁ =>
    cases r with
    | error e => rfl
    | ok t =>
      have hcopy := Context.copy_mapMode g w₁.context source t
      exact (congrArg ((w₁.mapMode g).settle t) hcopy).trans (settle_mapMode g w₁ t _)

private theorem alloc_mapMode (w : Workspace) (extents : List Nat) (type : ElementType) (device : Device) :
    (w.mapMode g).alloc extents type device = Prod.map id (mapMode g) (w.alloc extents type device) := by
  unfold alloc
  split
  · exact allocShape_mapMode g w _ type device
  · rfl

private theorem ofScalar_mapMode (w : Workspace) (value : Scalar) (device : Device) :
    (w.mapMode g).ofScalar value device = Prod.map id (mapMode g) (w.ofScalar value device) := by
  unfold ofScalar
  rw [allocShape_mapMode]
  cases w.allocShape .empty value.type device with
  | mk r w₁ =>
    cases r with
    | error e => rfl
    | ok t =>
      simp only [Prod.map, id, show (w₁.mapMode g).context = w₁.context.mapMode g from rfl, Context.fill_mapMode]
      cases w₁.context.fill t value with
      | mk r c' => cases r <;> rfl

private theorem toDevice_mapMode (w : Workspace) (source : Tensor) (device : Device) :
    (w.mapMode g).toDevice source device = Prod.map id (mapMode g) (w.toDevice source device) := by
  unfold toDevice
  split
  · rfl
  · split
    · rfl
    · exact duplicate_mapMode g w source device

end Workspace

/-! ### Commands -/

/-- Whether what a context answers can depend on its strictness. -/
def Command.asksMode : Command → Bool
  | .kernel _ | .reduceAll _ _ | .context => true
  | _ => false

namespace Session

open Workspace

variable {s s' : Session} {k : Nat} {c : Context}

def mapModes (g : Nat → Bool → Bool) (s : Session) : Session :=
  { s with contexts := s.contexts.mapIdx fun k c => c.map (·.mapMode (g k)) }

theorem bind_eq_map {α β γ : Type} {o : Option α} {f : α → Option β} {f' : α → Option γ} {g : β → γ}
    (h : ∀ a, f' a = (f a).map g) : o.bind f' = (o.bind f).map g := by
  rw [Option.map_bind]
  exact congrArg o.bind (funext h)

theorem step_of_context?_none (h : s.context? k = none) (command : Command) : s.step k command = none := by
  unfold step
  rw [h]
  rfl

private theorem step_kernel (hc : s.context? k = some c) (call : KernelCall Handle) :
    s.step k (.kernel call) = (call.operands? s.tensor?).map fun operands =>
      s.readBack k s.resources operands.output (c.launch operands) := by
  unfold step
  simp only [hc, Option.bind_eq_bind, Option.bind_some, Option.pure_def]
  cases call.operands? s.tensor? <;> rfl

private theorem step_reduceAll (hc : s.context? k = some c) (op : ReduceOp) (x : Handle) :
    s.step k (.reduceAll op x) = (s.tensor? x).map fun t => (Reply.scalar <$> c.reduceAll op t, s) := by
  unfold step
  simp only [hc, Option.bind_eq_bind, Option.bind_some, Option.pure_def]
  cases s.tensor? x <;> rfl

private theorem step_context (hc : s.context? k = some c) :
    s.step k .context = some (.ok (.context (s.resources.allocator c.allocator).name c.strict c.alignment), s) := by
  unfold step
  simp only [hc, Option.bind_eq_bind, Option.bind_some, Option.pure_def]

section MapModes

variable (g : Nat → Bool → Bool)

private theorem context?_mapModes (s : Session) (k : Nat) :
    (s.mapModes g).context? k = (s.context? k).map (·.mapMode (g k)) := by
  unfold context? mapModes
  rw [List.getElem?_mapIdx]
  cases s.contexts[k]? with
  | none => rfl
  | some c => cases c <;> rfl

private theorem setWorkspace_mapModes (s : Session) (k : Nat) (w : Workspace) :
    (s.mapModes g).setWorkspace k (w.mapMode (g k)) = (s.setWorkspace k w).mapModes g := by
  unfold setWorkspace mapModes
  simp only [List.mapIdx_set]
  rfl

private theorem bindResult_mapModes (s : Session) (k : Nat) (out : Handle) (o : Result Tensor × Workspace) :
    (s.mapModes g).bindResult k out (Prod.map id (mapMode (g k)) o) =
      Prod.map id (mapModes g) (s.bindResult k out o) := by
  obtain ⟨r, w⟩ := o
  cases r with
  | ok t => exact congrArg (fun s => ((.ok (.tensor t) : Result Reply), s.bind out t)) (setWorkspace_mapModes g s k w)
  | error e => exact congrArg (Prod.mk (Except.error e)) (setWorkspace_mapModes g s k w)

private theorem readBack_mapModes (s : Session) (k : Nat) (r : Resources) (t : Tensor) (o : Result Unit × Context) :
    (s.mapModes g).readBack k r t (Prod.map id (Context.mapMode (g k)) o) =
      Prod.map id (mapModes g) (s.readBack k r t o) := by
  obtain ⟨result, c⟩ := o
  cases result with
  | ok _ => exact congrArg (Prod.mk _) (setWorkspace_mapModes g s k ⟨c, r⟩)
  | error e => exact congrArg (Prod.mk (Except.error e)) (setWorkspace_mapModes g s k ⟨c, r⟩)

theorem step_mapModes (hc : s.context? k = some c) {command : Command} (h : command.asksMode = false) :
    (s.mapModes g).step k command = (s.step k command).map (Prod.map id (mapModes g)) := by
  have hbind := bindResult_mapModes g s k
  have hread := readBack_mapModes g s k s.resources
  have hself : ∀ x, (s.mapModes g).tensor? x = s.tensor? x := fun _ => rfl
  unfold step
  simp only [context?_mapModes, hc, Option.map_some, Option.bind_eq_bind, Option.bind_some, Option.pure_def, hself]
  cases command
  case null out extents type device => exact congrArg some (hbind out (_, ⟨c, s.resources⟩))
  case alloc out extents type device =>
    exact congrArg some ((congrArg _ (alloc_mapMode (g k) ⟨c, s.resources⟩ extents type device)).trans (hbind out _))
  case ofList out type data extents device =>
    exact congrArg some
      ((congrArg _ (ofList_mapMode (g k) ⟨c, s.resources⟩ type data extents device)).trans (hbind out _))
  case ofScalar out value device =>
    exact congrArg some ((congrArg _ (ofScalar_mapMode (g k) ⟨c, s.resources⟩ value device)).trans (hbind out _))
  case wrap out address contents extents type device =>
    exact congrArg some
      ((congrArg _ (wrap_mapMode (g k) ⟨c, s.resources⟩ address contents extents type device)).trans (hbind out _))
  case contiguous out x =>
    exact bind_eq_map fun t =>
      congrArg some ((congrArg _ (duplicate_mapMode (g k) ⟨c, s.resources⟩ t t.device)).trans (hbind out _))
  case toDevice out x device =>
    exact bind_eq_map fun t =>
      congrArg some ((congrArg _ (toDevice_mapMode (g k) ⟨c, s.resources⟩ t device)).trans (hbind out _))
  case view out x op => exact bind_eq_map fun t => congrArg some (hbind out (_, ⟨c, s.resources⟩))
  case set x index value =>
    exact bind_eq_map fun t => congrArg some ((congrArg _ (Context.set_mapMode (g k) c t index value)).trans (hread t _))
  case fill x value =>
    exact bind_eq_map fun t => congrArg some ((congrArg _ (Context.fill_mapMode (g k) c t value)).trans (hread t _))
  case copy source target =>
    exact bind_eq_map fun t => bind_eq_map fun u =>
      congrArg some ((congrArg _ (Context.copy_mapMode (g k) c u t)).trans (hread t _))
  case kernel call => simp [Command.asksMode] at h
  case release x =>
    refine bind_eq_map fun t => ?_
    have hrelease : Workspace.release ⟨c.mapMode (g k), (s.mapModes g).resources⟩ t =
        Prod.map id (mapMode (g k)) (Workspace.release ⟨c, s.resources⟩ t) := release_mapMode (g k) ⟨c, s.resources⟩ t
    simp only [hrelease, Prod.map, id, setWorkspace_mapModes, Option.map_some]
    rfl
  case detach x =>
    refine bind_eq_map fun t => ?_
    have hdetach : Workspace.detach ⟨c.mapMode (g k), (s.mapModes g).resources⟩ t =
        Prod.map id (mapMode (g k)) (Workspace.detach ⟨c, s.resources⟩ t) := detach_mapMode (g k) ⟨c, s.resources⟩ t
    simp only [hdetach, Prod.map, id, setWorkspace_mapModes, Option.map_some]
  case drop =>
    unfold mapModes
    simp only [List.mapIdx_set, Option.map_some, Prod.map]
    rfl
  case reduceAll op x => simp [Command.asksMode] at h
  case context => simp [Command.asksMode] at h
  case pair x y => exact bind_eq_map fun _ => bind_eq_map fun _ => rfl
  all_goals exact bind_eq_map fun _ => rfl

/-- The kernel runs as in a strict context, and what is made of its result is up to the context. -/
private theorem step_kernel_mapModes (hc : s.context? k = some c) (call : KernelCall Handle) :
    (s.mapModes g).step k (.kernel call) = (call.operands? s.tensor?).map fun operands =>
      Prod.map id (mapModes g) (s.readBack k s.resources operands.output
        ((c.mapMode (g k)).lenient () (c.strictly.launch operands).1, (c.launch operands).2)) := by
  rw [step_kernel ((context?_mapModes g s k).trans (congrArg _ hc))]
  refine congrArg (Option.map · _) (funext fun operands => ?_)
  obtain ⟨hresult, hleft⟩ := c.launch_mapMode (g k) operands
  rw [← readBack_mapModes]
  exact congrArg ((s.mapModes g).readBack k s.resources operands.output) (Prod.ext hresult hleft)

end MapModes

/-! ### Runs in both modes -/

/-- The session in which context `k` is lenient. -/
def loosen (s : Session) (k : Nat) : Session := s.mapModes (fun j strict => strict && j != k)

end Session

/-- Whether the memory of a tensor is missing, or not what the tensor needs. -/
def TensorError.isMemory : TensorError → Bool
  | overflow | alloc _ | null | released _ | bounds _ _ | misaligned _ => true
  | _ => false

private theorem TensorError.isPrecondition_of_isMemory {e : TensorError} (h : e.isMemory = true) :
    e.isPrecondition = false := by
  cases e <;> first | rfl | simp [isMemory] at h

/-- What a lenient context makes of a result, if `skipped` stands for having done nothing. -/
def Result.forgive {α : Type} (skipped : α) : Result α → Result α
  | .error (.error e) => if e.isPrecondition then .ok skipped else .error (.error e)
  | r => r

private theorem Result.map_forgive {α β : Type} (f : α → β) (skipped : α) (r : Result α) :
    f <$> r.forgive skipped = (f <$> r).forgive (f skipped) := by
  cases r with
  | ok a => rfl
  | error e =>
    cases e with
    | fault _ => rfl
    | error e =>
      change f <$> (if e.isPrecondition then pure skipped else Result.reject e) =
        if e.isPrecondition then pure (f skipped) else Result.reject e
      split <;> rfl

private theorem Context.lenient_eq_forgive {α : Type} {c : Context} (hs : c.strict = false) (skipped : α)
    (r : Result α) :
    c.lenient skipped r = r.forgive skipped := by
  unfold lenient Result.forgive
  rw [hs]
  cases r with
  | ok a => rfl
  | error f => cases f <;> rfl

namespace Session

variable {s s' : Session} {k : Nat} {c : Context}

/-- The answer of a kernel that has succeeded without doing anything. -/
def skip (s : Session) (k : Nat) (call : KernelCall Handle) : Result Reply :=
  match s.context? k, call.operands? s.tensor? with
  | some c, some operands => (s.readBack k s.resources operands.output (.ok (), c)).1
  | _, _ => .ok .nothing

/-- What context `k` answers if it is lenient, where it would answer `reply` if it were strict. -/
def forgive (s : Session) (k : Nat) : Command → Result Reply → Result Reply
  | .kernel call, .error (.error e) => if e.isPrecondition then s.skip k call else .error (.error e)
  | .reduceAll _ _, reply => reply.forgive (.scalar default)
  | .context, .ok (.context allocator _ alignment) => .ok (.context allocator false alignment)
  | _, reply => reply

private theorem forgive_of_not_asksMode {command : Command} (h : command.asksMode = false) (reply : Result Reply) :
    s.forgive k command reply = reply := by
  unfold forgive
  split <;> simp_all [Command.asksMode]

private theorem forgive_reject {e : TensorError} (h : e.isPrecondition = false) (command : Command) :
    s.forgive k command (Result.reject e) = Result.reject e := by
  unfold forgive Result.reject Result.forgive
  cases command <;> simp [h]

/-- A kernel in the lenient context. -/
private theorem readBack_forgive (hc : s.context? k = some c) {call : KernelCall Handle} {operands : KernelCall Tensor}
    (hoperands : call.operands? s.tensor? = some operands) :
    s.readBack k s.resources operands.output ((c.launch operands).1.forgive (), (c.launch operands).2) =
      Prod.map (s.forgive k (.kernel call)) id (s.readBack k s.resources operands.output (c.launch operands)) := by
  have hatomic := (c.launch_confined operands).atomic
  cases hlaunch : c.launch operands with
  | mk r c' =>
    rw [hlaunch] at hatomic
    cases r with
    | ok _ =>
      -- whatever is read back, it is not an error of the kernel
      simp only [Result.forgive, readBack, Prod.map, id]
      cases c'.elements operands.output with
      | ok values => rfl
      | error f => cases f <;> rfl
    | error f =>
      obtain rfl : c' = c := hatomic (by simp)
      cases f with
      | fault f => rfl
      | error e =>
        simp only [Result.forgive, readBack, Prod.map, forgive, skip, hc, hoperands]
        cases e.isPrecondition <;> rfl

/-- Where the strictness of the context stays, all answers stay. -/
private theorem step_mapModes_of_eq (g : Nat → Bool → Bool) (hc : s.context? k = some c) (hself : c.mapMode (g k) = c)
    (command : Command) : (s.mapModes g).step k command = (s.step k command).map (Prod.map id (mapModes g)) := by
  cases hmode : command.asksMode with
  | false => exact step_mapModes g hc hmode
  | true =>
    have hcontext : (s.mapModes g).context? k = some c := by rw [context?_mapModes, hc, Option.map_some, hself]
    cases command with
    | kernel call =>
      rw [step_kernel hcontext, step_kernel hc, Option.map_map]
      refine congrArg (Option.map · _) (funext fun operands => ?_)
      have hleft : (c.launch operands).2.mapMode (g k) = (c.launch operands).2 := by
        rw [← (c.launch_mapMode (g k) operands).2, hself]
      have hlaunch : c.launch operands = Prod.map id (Context.mapMode (g k)) (c.launch operands) :=
        Prod.ext rfl hleft.symm
      exact (congrArg _ hlaunch).trans (readBack_mapModes g s k s.resources operands.output _)
    | reduceAll op x =>
      rw [step_reduceAll hcontext, step_reduceAll hc, Option.map_map]
      rfl
    | context =>
      rw [step_context hcontext, step_context hc]
      rfl
    | _ => simp [Command.asksMode] at hmode

private theorem step_loosen_self (hc : s.context? k = some c) (hs : c.strict = true) {command : Command}
    (hmode : command.asksMode = true) :
    (s.loosen k).step k command = (s.step k command).map fun o => (s.forgive k command o.1, o.2.loosen k) := by
  have hstrictly : c.strictly = c := Context.mapMode_eq_self (g := fun _ => true) hs.symm
  have hlenient : (c.mapMode fun strict => strict && k != k).strict = false := by simp [Context.mapMode]
  have hcontext : (s.loosen k).context? k = some (c.mapMode fun strict => strict && k != k) := by
    rw [loosen, context?_mapModes, hc]
    rfl
  cases command with
  | kernel call =>
    rw [loosen, step_kernel_mapModes _ hc, step_kernel hc]
    cases hoperands : call.operands? s.tensor? with
    | none => rfl
    | some operands =>
      simp only [hstrictly, Context.lenient_eq_forgive hlenient, Option.map_some]
      exact congrArg (fun o => some (Prod.map id (mapModes _) o)) (readBack_forgive hc hoperands)
  | reduceAll op x =>
    rw [step_reduceAll hcontext, step_reduceAll hc, Option.map_map]
    refine congrArg (Option.map · _) (funext fun t => Prod.ext ?_ rfl)
    simp only [Context.reduceAll_mapMode, hstrictly, Context.lenient_eq_forgive hlenient]
    exact Result.map_forgive _ _ _
  | context =>
    rw [step_context hcontext, step_context hc]
    simp only [hlenient]
    rfl
  | _ => simp [Command.asksMode] at hmode

/-- In the loosened session a command leaves the same behind and gets the same answer, unless the context has something
to forgive. -/
theorem step_loosen (hs : ∀ c, s.context? k = some c → c.strict = true) (j : Nat) (command : Command) :
    (s.loosen k).step j command = (s.step j command).map fun o =>
      (if j = k then s.forgive k command o.1 else o.1, o.2.loosen k) := by
  cases hc : s.context? j with
  | none =>
    rw [step_of_context?_none hc, step_of_context?_none (by rw [loosen, context?_mapModes, hc]; rfl)]
    rfl
  | some c =>
    by_cases hjk : j = k
    · subst hjk
      simp only [if_true]
      cases hmode : command.asksMode with
      | false =>
        rw [loosen, step_mapModes _ hc hmode]
        simp only [forgive_of_not_asksMode hmode]
        rfl
      | true => exact step_loosen_self hc (hs c hc) hmode
    · simp only [if_neg hjk]
      exact step_mapModes_of_eq _ hc (Context.mapMode_eq_self (by simp [hjk])) command

private theorem build_loosen (hk : k < s.contexts.length) (options : ContextOptions) :
    (s.loosen k).build options = (s.build options).loosen k := by
  have hnew : (s.contexts.length != k) = true := bne_iff_ne.2 (Nat.ne_of_gt hk)
  simp only [loosen, build, mapModes, List.mapIdx_append, List.mapIdx_cons, List.mapIdx_nil, Nat.zero_add, hnew,
    Bool.and_true, Option.map_some, Context.mapMode_eq_self]

/-- Context `k` has been built, and is strict if it is still there. -/
def StrictAt (s : Session) (k : Nat) : Prop :=
  k < s.contexts.length ∧ ∀ c, s.context? k = some c → c.strict = true

theorem StrictAt.perform (h : s.StrictAt k) {e : Event} (hstep : s.perform e = some s') : s'.StrictAt k := by
  obtain ⟨hk, hsettings⟩ := settings_of_perform hstep h.1
  refine ⟨hk, fun c' hc' => ?_⟩
  obtain ⟨c, hc, heq⟩ := hsettings hc'
  exact (congrArg (·.2.1) heq).trans (h.2 c hc)

theorem perform_loosen (h : s.StrictAt k) (e : Event) :
    (s.loosen k).perform e = (s.perform e).map (·.loosen k) := by
  cases e with
  | register name provider tracked => rfl
  | setDefault id =>
    simp only [perform, show (s.loosen k).resources = s.resources from rfl]
    split <;> rfl
  | build options =>
    simp only [perform, show (s.loosen k).resources = s.resources from rfl, build_loosen h.1]
    split <;> rfl
  | command j command =>
    simp only [perform, step_loosen h.2, Option.map_map]
    rfl

/-- What holds in two runs of which the second is lenient in context `k` where the first is strict: the same names,
ledgers and tensors, the same buffers with the same bytes in every context, and from here on the same answers, but for
what `forgive` says. -/
structure Refines (k : Nat) (s l : Session) : Prop where
  resources : l.resources = s.resources
  tensors : l.tensors = s.tensors
  arena : ∀ j, (l.context? j).map (·.arena) = (s.context? j).map (·.arena)
  answer : ∀ j command, (l.step j command).map Prod.fst =
    (s.step j command).map fun o => if j = k then s.forgive k command o.1 else o.1
  launch : ∀ {c c'}, s.context? k = some c → l.context? k = some c' → ∀ call,
    (c'.launch call).1 = (c.launch call).1.forgive ()
  reduceAll : ∀ {c c'}, s.context? k = some c → l.context? k = some c' → ∀ op t,
    c'.reduceAll op t = (c.reduceAll op t).forgive default
  memory : ∀ {j command e s'}, e.isMemory = true → s.step j command = some (Result.reject e, s') →
    ∃ l', l.step j command = some (Result.reject e, l')

theorem refines_loosen (h : s.StrictAt k) : Refines k s (s.loosen k) := by
  have hlenient : ∀ {c c'}, s.context? k = some c → (s.loosen k).context? k = some c' →
      c.strictly = c ∧ c' = c.mapMode (fun strict => strict && k != k) ∧ c'.strict = false := by
    intro c c' hc hc'
    rw [loosen, context?_mapModes, hc] at hc'
    obtain rfl := Option.some.inj hc'
    exact ⟨Context.mapMode_eq_self (g := fun _ => true) (h.2 c hc).symm, rfl, by simp [Context.mapMode]⟩
  refine ⟨rfl, rfl, fun j => ?_, fun j command => ?_, fun {c c'} hc hc' call => ?_, fun {c c'} hc hc' op t => ?_,
    fun {j command e s'} he hstep => ?_⟩
  · rw [loosen, context?_mapModes, Option.map_map]
    rfl
  · rw [step_loosen h.2, Option.map_map]
    rfl
  · obtain ⟨hstrictly, rfl, hfalse⟩ := hlenient hc hc'
    rw [(c.launch_mapMode _ call).1, Context.lenient_eq_forgive hfalse, hstrictly]
  · obtain ⟨hstrictly, rfl, hfalse⟩ := hlenient hc hc'
    rw [Context.reduceAll_mapMode, Context.lenient_eq_forgive hfalse, hstrictly]
  · refine ⟨s'.loosen k, ?_⟩
    rw [step_loosen h.2, hstep, Option.map_some]
    simp only [forgive_reject (TensorError.isPrecondition_of_isMemory he), ite_self]

/-- A lenient run goes where the strict run goes, and refines it after every step. -/
theorem performAll_loosen (hc : s.context? k = some c) (hs : c.strict = true) (events : List Event) :
    Option.Rel (Refines k) (s.performAll events) ((s.loosen k).performAll events) := by
  have hstrict : s.StrictAt k := ⟨lt_of_context? hc, fun c' hc' => by rwa [Option.some.inj (hc'.symm.trans hc)]⟩
  clear hc hs
  induction events generalizing s with
  | nil => exact .some (refines_loosen hstrict)
  | cons e events ih =>
    simp only [performAll, List.foldlM_cons, perform_loosen hstrict]
    cases hstep : s.perform e with
    | none => exact .none
    | some s' => exact ih (hstrict.perform hstep)

/-! ### A kernel with operands of different sizes -/

def mismatch : List Event := [.command 0 (.ofList "a" .f32 [0x3f800000#32, 0xc0000000#32] [2] .cpu),
  .command 0 (.ofList "b" .f32 [0x40400000#32] [1] .cpu), .command 0 (.kernel (.unary .relu "a" "b")),
  .command 0 (.kernel (.unary .relu "a" "a"))]

theorem mismatch_loosen : ∃ s c s' l, initial.performAll [.build {}] = some s ∧ s.context? 0 = some c ∧
    c.strict = true ∧ s.performAll mismatch = some s' ∧ (s.loosen 0).performAll mismatch = some l ∧
    Refines 0 s' l ∧
    (s'.step 0 (.kernel (.unary .relu "a" "b"))).map Prod.fst = some (Result.reject (.count 2 1)) ∧
    (l.step 0 (.kernel (.unary .relu "a" "b"))).map Prod.fst =
      some (.ok (.wrote (.ok [⟨.f32, 0x40400000#32⟩]))) := by
  obtain ⟨s, hs⟩ : ∃ s, initial.performAll [.build {}] = some s := ⟨_, rfl⟩
  obtain ⟨c, hc⟩ : ∃ c, (initial.performAll [.build {}]).bind (·.context? 0) = some c := ⟨_, rfl⟩
  have hstrict : ((initial.performAll [.build {}]).bind (·.context? 0)).map (·.strict) = some true := rfl
  have hstep : ((initial.performAll [.build {}]).bind fun s => do
      ((← s.performAll mismatch).step 0 (.kernel (.unary .relu "a" "b"))).map Prod.fst) =
      some (Result.reject (.count 2 1)) := rfl
  have hlenient : ((initial.performAll [.build {}]).bind fun s => do
      ((← (s.loosen 0).performAll mismatch).step 0 (.kernel (.unary .relu "a" "b"))).map Prod.fst) =
      some (.ok (.wrote (.ok [⟨.f32, 0x40400000#32⟩]))) := rfl
  simp only [hs, Option.bind_some, Option.bind_eq_bind, Option.bind_eq_some_iff] at hc hstrict hstep hlenient
  obtain ⟨s', hs', hstep⟩ := hstep
  obtain ⟨l, hl, hlenient⟩ := hlenient
  rw [hc, Option.map_some, Option.some.injEq] at hstrict
  have hrel := performAll_loosen hc hstrict mismatch
  rw [hs', hl] at hrel
  cases hrel with
  | some h => exact ⟨s, c, s', l, hs, hc, hstrict, hs', hl, h, hstep, hlenient⟩

end Session

end StridedTensor
