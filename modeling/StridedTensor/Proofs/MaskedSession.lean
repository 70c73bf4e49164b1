import StridedTensor.Proofs.Lending
import StridedTensor.Proofs.Masking
import StridedTensor.Proofs.Modes

/-!
# Sessions behind a mask

A whole session can be put behind a mask, with what callers have lent (`Session.mask`). Then each command does what it
does without the mask, and lends memory as the mask has it (`Session.step_mask`). The one condition is that the mask has
no other bytes for memory that is lent for the host (`Mask.Spares`), since that is where the bytes of a buffer go when
it is given back.
-/

namespace StridedTensor

/-! ### Workspaces -/

/-- On the host the mask changes nothing, not even where the memory of the buffer goes in the end. -/
def Mask.Spares (μ : Mask) (b : Buffer) : Prop :=
  b.device.isCpu = true → ∀ m, b.origin = .foreign m → μ.memory m = id

def Context.SparedBy (c : Context) (μ : Mask) : Prop := ∀ b ∈ c.arena.values, μ.Spares b

variable {μ : Mask}

private theorem Mask.Spares.of_blank {b b' : Buffer} (h : μ.Spares b) (hb : b'.blank = b.blank) : μ.Spares b' := by
  have hdevice : b'.device = b.device := (congrArg Buffer.device hb :)
  have horigin : b'.origin = b.origin := (congrArg Buffer.origin hb :)
  intro hcpu m hm
  exact h (hdevice ▸ hcpu) m (horigin ▸ hm)

private theorem Mask.spares_of_owned {b : Buffer} {id : AllocatorId} (h : b.origin = .owned id) : μ.Spares b := by
  intro _ m hm
  rw [h] at hm
  cases hm

private theorem Context.SparedBy.of_blank {c c' : Context} (h : c.SparedBy μ) (hc : c'.blank = c.blank) :
    c'.SparedBy μ := by
  intro b' hb'
  obtain ⟨b, hb, hsame⟩ := Workspace.mem_of_blank hc hb'
  exact (h b hb).of_blank hsame.symm

namespace Resources

variable (μ) in
def mask (r : Resources) : Resources := { r with callerMemory := r.callerMemory.mapIdx μ.memory }

theorem length_callerMemory_mask (r : Resources) : (r.mask μ).callerMemory.length = r.callerMemory.length :=
  List.length_mapIdx

theorem getElem?_callerMemory_mask (r : Resources) (m : Nat) :
    (r.mask μ).callerMemory[m]? = (r.callerMemory[m]?).map (μ.memory m) := List.getElem?_mapIdx

end Resources

private theorem Buffer.dispose_mask {b : Buffer} (h : μ.Spares b) (r : Resources) :
    (b.mask μ).dispose (r.mask μ) = (b.dispose r).mask μ := by
  cases horigin : b.origin with
  | owned id =>
    rw [mask_of_owned horigin]
    unfold dispose
    rw [horigin]
    rfl
  | foreign m =>
    have hcontents : (b.mask μ).contents = μ.memory m b.contents := by
      cases hcpu : b.device.isCpu with
      | true => rw [mask_of_isCpu hcpu, h hcpu m horigin, id]
      | false => exact contents_mask_of_foreign hcpu horigin
    rw [dispose_of_foreign (b := b.mask μ) horigin, dispose_of_foreign horigin, hcontents]
    unfold Resources.mask
    rw [List.mapIdx_set]

private theorem Arena.disposeAll_mask {a : Arena} (h : ∀ b ∈ a.values, μ.Spares b) (r : Resources) :
    Arena.disposeAll (Table.map (Buffer.mask μ) a) (r.mask μ) = (a.disposeAll r).mask μ := by
  unfold disposeAll
  rw [Table.values_map]
  generalize a.values = bs at h
  induction bs generalizing r with
  | nil => rfl
  | cons b bs ih =>
    rw [List.map_cons, List.foldl_cons, List.foldl_cons, Buffer.dispose_mask (h b List.mem_cons_self)]
    exact ih (b.dispose r) fun b' hb' => h b' (List.mem_cons_of_mem b hb')

private theorem Buffer.allocate_mask (r : Resources) (id : AllocatorId) (size alignment : Nat) (device : Device) :
    allocate (r.mask μ) id size alignment device =
      Prod.map (fun b => b) (Resources.mask μ) (allocate r id size alignment device) := by
  unfold allocate
  split
  · rfl
  · split
    · rfl
    · simp only [show (r.mask μ).allocator id = r.allocator id from rfl]
      cases ((r.allocator id).allocateZeroed ⟨size, alignment, device⟩).1 <;> rfl

namespace Workspace

variable (μ) in
def mask (w : Workspace) : Workspace := ⟨w.context.mask μ, w.resources.mask μ⟩

private theorem allocShape_mask (w : Workspace) (shape : Shape) (type : ElementType) (device : Device) :
    (w.mask μ).allocShape shape type device = Prod.map id (mask μ) (w.allocShape shape type device) := by
  unfold allocShape
  split
  · rfl
  · split
    · rfl
    · rfl
    · split
      · rfl
      · rename_i size _
        have halloc := Buffer.allocate_mask (μ := μ) w.resources w.context.allocator size
          (max w.context.alignment type.alignment) device
        simp only [mask, Context.mask] at halloc ⊢
        rw [halloc]
        cases h : Buffer.allocate w.resources w.context.allocator size (max w.context.alignment type.alignment) device with
        | mk answer r =>
          cases answer with
          | error e => rfl
          | ok b =>
            obtain ⟨_, -, -, -, hb, -⟩ := Buffer.allocate_eq_ok h
            have horigin : b.origin = .owned w.context.allocator := by rw [hb]
            have hsame : b.mask μ = b := Buffer.mask_of_owned horigin
            have hinsert := Table.insert_map (Buffer.mask μ) w.context.arena r.nextBuffer b
            rw [hsame] at hinsert
            simp only [Prod.map, Arena.add, Resources.mask, hinsert]
            rfl

private theorem sparedBy_allocShape {w : Workspace} (h : w.context.SparedBy μ) (shape : Shape) (type : ElementType)
    (device : Device) : (w.allocShape shape type device).2.context.SparedBy μ := by
  have halloc := w.allocShape_allocated shape type device
  generalize w.allocShape shape type device = o at halloc
  cases halloc with
  | stop | refuse | empty => exact h
  | make made =>
    obtain ⟨_, -, -, -, rfl, -⟩ := Buffer.allocate_eq_ok made.allocate
    intro b' hb'
    rcases Table.mem_values_insert hb' with hold | rfl
    · exact h b' hold
    · exact Mask.spares_of_owned rfl

private theorem dispose_mask {w : Workspace} (h : w.context.SparedBy μ) (id : BufferId) :
    (w.mask μ).dispose id = (w.dispose id).mask μ := by
  have hget : (w.mask μ).context.arena.get? id = (w.context.arena.get? id).map (Buffer.mask μ) :=
    w.context.get?_mask id
  cases hb : w.context.arena.get? id with
  | none =>
    rw [hb] at hget
    rw [dispose_of_get?_none hget, dispose_of_get?_none hb]
  | some b =>
    rw [hb] at hget
    have hgive := Buffer.dispose_mask (h b (Table.mem_values_of_get? hb)) w.resources
    have herase : (w.mask μ).context.arena.erase id = Table.map (Buffer.mask μ) (w.context.arena.erase id) :=
      Table.erase_map _ _ _
    unfold dispose Arena.dispose
    simp only [hget, hb, Option.map_some, herase]
    exact congrArg (Workspace.mk _) hgive

private theorem release_mask {w : Workspace} (h : w.context.SparedBy μ) (t : Tensor) :
    (w.mask μ).release t = Prod.map id (mask μ) (w.release t) := by
  have hheld : ∀ id, (w.mask μ).context.arena.contains id = w.context.arena.contains id := w.context.contains_mask
  unfold release
  simp only [hheld]
  split
  · rfl
  · cases t.disown with
    | mk id t =>
      cases id with
      | none => rfl
      | some id => exact congrArg (Prod.mk t) (dispose_mask h id)

private theorem detach_mask {w : Workspace} (h : w.context.SparedBy μ) (t : Tensor) :
    (w.mask μ).detach t = Prod.map id (mask μ) (w.detach t) := by
  unfold detach
  cases t.buffer with
  | none => rfl
  | some id =>
    have hget : (w.mask μ).context.arena.get? id = (w.context.arena.get? id).map (Buffer.mask μ) :=
      w.context.get?_mask id
    simp only [hget]
    cases w.context.arena.get? id with
    | none => rfl
    | some b =>
      simp only [Option.map_some, show (b.mask μ).isOwned = b.isOwned from rfl]
      cases b.isOwned with
      | true => rfl
      | false => exact congrArg (Prod.mk (Except.ok ())) (dispose_mask h id)

private theorem settle_mask {w : Workspace} (t : Tensor) {o : Result Unit × Context} (h : o.2.SparedBy μ) :
    (w.mask μ).settle t (Prod.map id (Context.mask μ) o) = Prod.map id (mask μ) (w.settle t o) := by
  obtain ⟨r, c⟩ := o
  cases r with
  | ok _ => rfl
  | error e => exact congrArg (fun o => (Except.error e, o.2)) (release_mask (w := ⟨c, w.resources⟩) h t)

private theorem alloc_mask (w : Workspace) (extents : List Nat) (type : ElementType) (device : Device) :
    (w.mask μ).alloc extents type device = Prod.map id (mask μ) (w.alloc extents type device) := by
  unfold alloc
  split
  · exact allocShape_mask w _ type device
  · rfl

private theorem ofList_mask {w : Workspace} (h : w.context.SparedBy μ) (type : ElementType)
    (data : List (BitVec type.width))
    (extents : List Nat) (device : Device) :
    (w.mask μ).ofList type data extents device = Prod.map id (mask μ) (w.ofList type data extents device) := by
  unfold ofList
  split
  · rfl
  · rename_i shape _
    split
    · rfl
    · split
      · rfl
      · have hspared := sparedBy_allocShape h shape type device
        rw [allocShape_mask]
        cases halloc : w.allocShape shape type device with
        | mk r w₁ =>
          rw [halloc] at hspared
          cases r with
          | error e => rfl
          | ok t =>
            have hwrite := w₁.context.updateHost_mask (μ := μ) t fun contents =>
              contents.setElement 0 (data.flatMap type.encode)
            have hblank := w₁.context.blank_updateHost (t := t)
              (f := fun contents => contents.setElement 0 (data.flatMap type.encode)) fun _ _ => Bytes.size_setElement
            have hafter := Context.SparedBy.of_blank hspared hblank
            exact (congrArg ((w₁.mask μ).settle t) hwrite).trans (settle_mask t hafter)

private theorem ofScalar_mask (w : Workspace) (value : Scalar) (device : Device) :
    (w.mask μ).ofScalar value device = Prod.map id (mask μ) (w.ofScalar value device) := by
  unfold ofScalar
  rw [allocShape_mask]
  cases w.allocShape .empty value.type device with
  | mk r w₁ =>
    cases r with
    | error e => rfl
    | ok t =>
      simp only [Prod.map, id, show (w₁.mask μ).context = w₁.context.mask μ from rfl, Context.fill_mask]
      cases w₁.context.fill t value with
      | mk r c' => cases r <;> rfl

private theorem duplicate_mask {w : Workspace} (h : w.context.SparedBy μ) (source : Tensor) (device : Device) :
    (w.mask μ).duplicate source device = Prod.map id (mask μ) (w.duplicate source device) := by
  have hspared := sparedBy_allocShape h source.shape source.type device
  unfold duplicate
  rw [allocShape_mask]
  cases halloc : w.allocShape source.shape source.type device with
  | mk r w₁ =>
    rw [halloc] at hspared
    cases r with
    | error e => rfl
    | ok t =>
      have hcopy := w₁.context.copy_mask (μ := μ) source t
      have hafter := hspared.of_blank (w₁.context.blank_copy source t)
      exact (congrArg ((w₁.mask μ).settle t) hcopy).trans (settle_mask t hafter)

private theorem toDevice_mask {w : Workspace} (h : w.context.SparedBy μ) (source : Tensor) (device : Device) :
    (w.mask μ).toDevice source device = Prod.map id (mask μ) (w.toDevice source device) := by
  unfold toDevice
  split
  · rfl
  · split
    · rfl
    · exact duplicate_mask h source device

/-- The memory that is lent next is masked as it is lent. -/
private theorem wrap_mask {w : Workspace} {device : Device}
    (h : device.isCpu = true → μ.memory w.resources.callerMemory.length = id) (address : Address) (contents : Bytes)
    (extents : List Nat) (type : ElementType) :
    (w.mask μ).wrap address (μ.memory w.resources.callerMemory.length contents) extents type device =
      Prod.map id (mask μ) (w.wrap address contents extents type device) := by
  have hlent : (w.mask μ).resources.callerMemory ++ [μ.memory w.resources.callerMemory.length contents] =
      (w.resources.callerMemory ++ [contents]).mapIdx μ.memory := by
    rw [List.mapIdx_append, List.mapIdx_singleton, Nat.zero_add]
    rfl
  have hlength : (w.mask μ).resources.callerMemory.length = w.resources.callerMemory.length :=
    w.resources.length_callerMemory_mask
  have hforeign : Buffer.foreign w.resources.callerMemory.length address
      (μ.memory w.resources.callerMemory.length contents) device =
        (Buffer.foreign w.resources.callerMemory.length address contents device).mask μ := by
    unfold Buffer.foreign Buffer.mask
    cases hcpu : device.isCpu with
    | true => simp only [h hcpu, id, if_true]
    | false => simp only [Bool.false_eq_true, if_false]
  unfold wrap
  simp only [hlent, hlength, hforeign, μ.size_memory]
  split
  · rfl
  · split
    · rfl
    · split
      · rfl
      · have hinsert := Table.insert_map (Buffer.mask μ) w.context.arena w.resources.nextBuffer
          (Buffer.foreign w.resources.callerMemory.length address contents device)
        simp only [Arena.add, Prod.map, mask, Context.mask, Resources.mask, hinsert]
        rfl

end Workspace

/-! ### Commands behind a mask -/

/-- The device of the memory that a command lends. -/
def Command.lends? : Command → Option Device
  | .wrap _ _ _ _ _ device => some device
  | _ => none

/-- The command with other bytes in the memory that it lends, which will be the piece `m`. -/
def Command.mask (μ : Mask) (m : Nat) : Command → Command
  | .wrap out address contents extents type device => .wrap out address (μ.memory m contents) extents type device
  | command => command

def Reply.mask (μ : Mask) : Reply → Reply
  | .buffer b => .buffer (b.map (Buffer.mask μ))
  | reply => reply

namespace Session

open Workspace

variable {μ : Mask} {s : Session} {k : Nat} {command : Command}

variable (μ) in
def mask (s : Session) : Session :=
  ⟨s.resources.mask μ, s.contexts.map (Option.map (Context.mask μ)), s.tensors⟩

theorem context?_mask (s : Session) (k : Nat) : (s.mask μ).context? k = (s.context? k).map (Context.mask μ) := by
  unfold context? mask
  rw [List.getElem?_map]
  cases s.contexts[k]? with
  | none => rfl
  | some c => cases c <;> rfl

private theorem setWorkspace_mask (s : Session) (k : Nat) (w : Workspace) :
    (s.mask μ).setWorkspace k (w.mask μ) = (s.setWorkspace k w).mask μ := by
  unfold setWorkspace mask
  simp only [List.map_set]
  rfl

variable (μ) in
/-- An answer behind the mask, and the session that it leaves behind. -/
def maskOutcome (o : Result Reply × Session) : Result Reply × Session := (o.1.map (Reply.mask μ), o.2.mask μ)

private theorem bindResult_mask (s : Session) (k : Nat) (out : Handle) (o : Result Tensor × Workspace) :
    (s.mask μ).bindResult k out (Prod.map id (Workspace.mask μ) o) = maskOutcome μ (s.bindResult k out o) := by
  obtain ⟨r, w⟩ := o
  cases r with
  | ok t => exact congrArg (fun s => ((.ok (.tensor t) : Result Reply), s.bind out t)) (setWorkspace_mask s k w)
  | error e => exact congrArg (Prod.mk (Except.error e)) (setWorkspace_mask s k w)

private theorem readBack_mask (s : Session) (k : Nat) (r : Resources) (t : Tensor) (o : Result Unit × Context) :
    (s.mask μ).readBack k (r.mask μ) t (Prod.map id (Context.mask μ) o) = maskOutcome μ (s.readBack k r t o) := by
  have hleft := setWorkspace_mask (μ := μ) s k ⟨o.2, r⟩
  obtain ⟨result, c⟩ := o
  cases result with
  | error e => exact congrArg (Prod.mk (Except.error e)) hleft
  | ok _ =>
    simp only [readBack, maskOutcome, Prod.map, id, Context.elements_mask]
    refine Prod.ext ?_ hleft
    cases c.elements t with
    | ok values => rfl
    | error e => cases e <;> rfl

/-- A command does behind the mask what it does before it, and what it lends is masked too. -/
theorem step_mask (hspared : ∀ k c, s.context? k = some c → c.SparedBy μ)
    (hlent : ∀ device, command.lends? = some device → device.isCpu = true →
      μ.memory s.resources.callerMemory.length = id) :
    (s.mask μ).step k (command.mask μ s.resources.callerMemory.length) = (s.step k command).map (maskOutcome μ) := by
  cases hc : s.context? k with
  | none =>
    rw [step_of_context?_none hc, step_of_context?_none (by rw [context?_mask, hc]; rfl)]
    rfl
  | some c =>
    have hspared : c.SparedBy μ := hspared k c hc
    have hbind := bindResult_mask (μ := μ) s k
    have hread := readBack_mask (μ := μ) s k s.resources
    have hself : ∀ x, (s.mask μ).tensor? x = s.tensor? x := fun _ => rfl
    -- an answer that says nothing about a buffer is the same behind the mask
    have hreply : ∀ {α : Type} (f : α → Reply), (∀ a, (f a).mask μ = f a) → ∀ {r r' : Result α}, r' = r →
        some (f <$> r', s.mask μ) = some (maskOutcome μ (f <$> r, s)) := by
      intro α f hf r r' hr
      rw [hr]
      cases r with
      | error e => rfl
      | ok a => exact congrArg (fun reply => some ((.ok reply : Result Reply), s.mask μ)) (hf a).symm
    unfold step
    simp only [context?_mask, hc, Option.map_some, Option.bind_eq_bind, Option.bind_some, Option.pure_def]
    cases command
    all_goals simp only [Command.mask, hself]
    case null out extents type device => exact congrArg some (hbind out (_, ⟨c, s.resources⟩))
    case alloc out extents type device =>
      exact congrArg some ((congrArg _ (alloc_mask ⟨c, s.resources⟩ extents type device)).trans (hbind out _))
    case ofList out type data extents device =>
      exact congrArg some
        ((congrArg _ (ofList_mask (w := ⟨c, s.resources⟩) hspared type data extents device)).trans (hbind out _))
    case ofScalar out value device =>
      exact congrArg some ((congrArg _ (ofScalar_mask ⟨c, s.resources⟩ value device)).trans (hbind out _))
    case wrap out address contents extents type device =>
      have hwrap := wrap_mask (w := ⟨c, s.resources⟩) (hlent device rfl) address contents extents type
      exact congrArg some ((congrArg _ hwrap).trans (hbind out _))
    case contiguous out x =>
      exact bind_eq_map fun t => congrArg some
        ((congrArg _ (duplicate_mask (w := ⟨c, s.resources⟩) hspared t t.device)).trans (hbind out _))
    case toDevice out x device =>
      exact bind_eq_map fun t => congrArg some
        ((congrArg _ (toDevice_mask (w := ⟨c, s.resources⟩) hspared t device)).trans (hbind out _))
    case view out x op => exact bind_eq_map fun t => congrArg some (hbind out (_, ⟨c, s.resources⟩))
    case set x index value =>
      exact bind_eq_map fun t => congrArg some ((congrArg _ (c.set_mask t index value)).trans (hread t _))
    case fill x value =>
      exact bind_eq_map fun t => congrArg some ((congrArg _ (c.fill_mask t value)).trans (hread t _))
    case copy source target =>
      exact bind_eq_map fun t => bind_eq_map fun u =>
        congrArg some ((congrArg _ (c.copy_mask u t)).trans (hread t _))
    case kernel call =>
      exact bind_eq_map fun operands =>
        congrArg some ((congrArg _ (c.launch_mask operands)).trans (hread operands.output _))
    case release x =>
      refine bind_eq_map fun t => ?_
      have hrelease : Workspace.release ⟨c.mask μ, (s.mask μ).resources⟩ t =
          Prod.map id (Workspace.mask μ) (Workspace.release ⟨c, s.resources⟩ t) :=
        release_mask (w := ⟨c, s.resources⟩) hspared t
      simp only [hrelease, Prod.map, id, setWorkspace_mask, Option.map_some]
      rfl
    case detach x =>
      refine bind_eq_map fun t => ?_
      have hdetach : Workspace.detach ⟨c.mask μ, (s.mask μ).resources⟩ t =
          Prod.map id (Workspace.mask μ) (Workspace.detach ⟨c, s.resources⟩ t) :=
        detach_mask (w := ⟨c, s.resources⟩) hspared t
      simp only [hdetach, Prod.map, id, setWorkspace_mask, Option.map_some]
      cases (Workspace.detach ⟨c, s.resources⟩ t).1 <;> rfl
    case drop =>
      have hdrop := Arena.disposeAll_mask hspared s.resources
      simp only [Option.map_some, maskOutcome, mask, Workspace.drop, List.map_set]
      exact congrArg (fun r => some (_, (⟨r, _, _⟩ : Session))) hdrop
    case offsets x =>
      refine bind_eq_map fun t => ?_
      cases t.numel with
      | error e => rfl
      | ok n => exact hreply (Reply.offsets n) (fun _ => rfl) rfl
    case isLive x =>
      refine bind_eq_map fun t => ?_
      have hlive : (c.mask μ).isLive t = c.isLive t := by
        unfold Context.isLive
        simp only [Context.contains_mask]
      rw [hlive]
      rfl
    case buffer x =>
      refine bind_eq_map fun t => ?_
      have hfound : t.buffer.bind (c.mask μ).arena.get? = (t.buffer.bind c.arena.get?).map (Buffer.mask μ) := by
        cases t.buffer with
        | none => rfl
        | some id => exact c.get?_mask id
      rw [hfound]
      rfl
    case validate x => exact bind_eq_map fun t => hreply (fun _ => Reply.valid) (fun _ => rfl) (c.validate_mask t)
    case toList x type => exact bind_eq_map fun t => hreply _ (fun _ => rfl) (c.toList_mask t _)
    case elements x => exact bind_eq_map fun t => hreply Reply.scalars (fun _ => rfl) (c.elements_mask t)
    case get x index => exact bind_eq_map fun t => hreply Reply.scalar (fun _ => rfl) (c.get_mask t index)
    case toScalar x => exact bind_eq_map fun t => hreply Reply.scalar (fun _ => rfl) (c.toScalar_mask t)
    case reduceAll op x => exact bind_eq_map fun t => hreply Reply.scalar (fun _ => rfl) (c.reduceAll_mask op t)
    case canReshape x extents => exact bind_eq_map fun t => hreply Reply.flag (fun _ => rfl) rfl
    case elementOffset x index => exact bind_eq_map fun t => hreply Reply.number (fun _ => rfl) rfl
    case pair x y => exact bind_eq_map fun _ => bind_eq_map fun _ => rfl
    case context => rfl
    case info | canSlice => exact bind_eq_map fun _ => rfl

end Session

/-- The device of the memory that an event lends. -/
def Event.lends? : Event → Option Device
  | .command _ asked => asked.lends?
  | _ => none

def Event.mask (μ : Mask) (m : Nat) : Event → Event
  | .command k asked => .command k (asked.mask μ m)
  | e => e

theorem Event.mask_of_id {μ : Mask} {m : Nat} (h : μ.memory m = id) (e : Event) : e.mask μ m = e := by
  cases e with
  | register | setDefault | build => rfl
  | command k asked =>
    cases asked
    case wrap => simp only [Event.mask, Command.mask, h, id]
    all_goals rfl

namespace Session

variable {μ ν : Mask} {s : Session}

theorem sparedBy_of_buffers {k : Nat} (h : ∀ b ∈ s.buffers, μ.Spares b) {c : Context} (hc : s.context? k = some c) :
    c.SparedBy μ := fun b hb => h b (mem_buffers.2 ⟨k, c, hc, hb⟩)

theorem perform_mask (hspared : ∀ k c, s.context? k = some c → c.SparedBy μ) {e : Event}
    (hlent : ∀ device, e.lends? = some device → device.isCpu = true →
      μ.memory s.resources.callerMemory.length = id) :
    (s.mask μ).perform (e.mask μ s.resources.callerMemory.length) = (s.perform e).map (mask μ) := by
  cases e with
  | register name provider tracked => rfl
  | setDefault id =>
    simp only [Event.mask, perform, show (s.mask μ).resources.allocators = s.resources.allocators from rfl]
    split <;> rfl
  | build options =>
    have hbuild : (s.mask μ).build options = (s.build options).mask μ := by
      unfold build mask
      simp only [List.map_append, List.map_cons, List.map_nil]
      rfl
    simp only [Event.mask, perform, hbuild, show (s.mask μ).resources.allocators = s.resources.allocators from rfl]
    split <;> rfl
  | command k command =>
    simp only [Event.mask, perform, step_mask hspared hlent, Option.map_map]
    rfl

/-- A mask under another one that covers as much is not seen. -/
theorem mask_mask (h : ∀ m contents, ν.memory m (μ.memory m contents) = ν.memory m contents) (s : Session) :
    (s.mask μ).mask ν = s.mask ν := by
  have hbuffer : ∀ b : Buffer, (b.mask μ).mask ν = b.mask ν := by
    intro b
    cases hcpu : b.device.isCpu with
    | true => rw [Buffer.mask_of_isCpu hcpu]
    | false =>
      cases horigin : b.origin with
      | owned id => rw [Buffer.mask_of_owned horigin]
      | foreign m =>
        have hcontents : ((b.mask μ).mask ν).contents = (b.mask ν).contents := by
          rw [Buffer.contents_mask_of_foreign (b := b.mask μ) hcpu horigin, Buffer.contents_mask_of_foreign hcpu horigin,
            Buffer.contents_mask_of_foreign hcpu horigin, h]
        exact congrArg (fun contents => { b with contents := contents }) hcontents
  have hcontext : ∀ c : Context, (c.mask μ).mask ν = c.mask ν := by
    intro c
    unfold Context.mask
    simp only [Table.map_map, hbuffer]
  have hresources : (s.resources.mask μ).mask ν = s.resources.mask ν := by
    unfold Resources.mask
    simp only [List.mapIdx_mapIdx]
    congr 1
    exact congrArg (fun f => s.resources.callerMemory.mapIdx f) (funext fun m => funext (h m))
  unfold mask
  simp only [hresources, List.map_map]
  congr 1
  apply List.map_congr_left
  intro c _
  cases c with
  | none => rfl
  | some c => exact congrArg some (hcontext c)

/-- Where the mask changes no byte it changes nothing. -/
theorem mask_eq_self (hmemory : ∀ m contents, s.resources.callerMemory[m]? = some contents →
      μ.memory m contents = contents)
    (hbuffer : ∀ b ∈ s.buffers, ∀ m, b.origin = .foreign m → μ.memory m b.contents = b.contents) : s.mask μ = s := by
  have hresources : s.resources.mask μ = s.resources := by
    have hsame : (s.resources.mask μ).callerMemory = s.resources.callerMemory := by
      apply List.ext_getElem?
      intro m
      rw [Resources.getElem?_callerMemory_mask]
      cases hm : s.resources.callerMemory[m]? with
      | none => rfl
      | some contents => rw [Option.map_some, hmemory m contents hm]
    exact congrArg (fun memory => { s.resources with callerMemory := memory }) hsame
  have hcontexts : s.contexts.map (Option.map (Context.mask μ)) = s.contexts := by
    refine (List.map_congr_left fun c hc => ?_).trans (List.map_id _)
    cases c with
    | none => rfl
    | some c =>
      have hkeep : Table.map (Buffer.mask μ) c.arena = c.arena :=
        Table.map_eq_self fun b hb => Buffer.mask_eq_self (hbuffer b (List.mem_flatMap.2 ⟨some c, hc, hb⟩))
      unfold Context.mask
      simp only [Option.map_some, hkeep, id]
  unfold mask
  rw [hresources, hcontexts]

end Session

end StridedTensor
