import StridedTensor.Proofs.Creation

/-!
# Errors in replies

Which errors a client can be told of. Whatever a command is and however it fails, an error that is not ordinary is
about a tensor that the command names or about the device on which it asks for a tensor (`Session.step_reports`). A
tensor that the command makes itself is in order, so nothing is reported about it.
-/

namespace StridedTensor

open Result

variable {P : TensorError → Prop}

/-! ### Operations on a workspace -/

/-- On a device that is available an allocator may refuse, but the device is not blamed. -/
private theorem Buffer.isOrdinary_of_allocate {r r' : Resources} {id : AllocatorId} {size alignment : Nat}
    {device : Device}
    {e : AllocError} (hd : device.isAvailable = true) (h : allocate r id size alignment device = (.error e, r')) :
    (TensorError.alloc e).isOrdinary = true := by
  unfold allocate at h
  split at h
  · obtain rfl : AllocError.empty = e := Except.error.inj (congrArg Prod.fst h)
    rfl
  · rw [hd] at h
    simp only [Bool.not_true, Bool.false_eq_true, if_false] at h
    split at h
    · simp at h
    · obtain rfl := Except.error.inj (congrArg Prod.fst h)
      rfl

namespace Workspace

variable {w w' : Workspace} {shape : Shape} {type : ElementType} {device : Device} {t : Tensor}

private theorem Yields.agrees (h : Yields w w' t) : w'.context.Agrees t := by
  cases h with
  | null view buffer => exact ⟨fun howner => by simp [view] at howner, fun hid => by simp [buffer] at hid⟩
  | owner new owns keeps => exact keeps.agrees owns
  | @lent id b view buffer new held device =>
    refine ⟨fun howner => by simp [view] at howner, fun {j b'} hid hb' => ?_⟩
    obtain rfl : id = j := Option.some.inj (buffer.symm.trans hid)
    obtain rfl : b = b' := Option.some.inj (held.symm.trans hb')
    exact device

private theorem Allocated.isCpu (h : Allocated w shape type device (.ok t, w')) : t.device.isCpu = true := by
  cases h with
  | empty numel canonical cpu => exact cpu
  | make made => exact made.owns.device

/-- Nothing is reported about a tensor that has just been made. -/
private theorem admits_of_allocShape (h : w.allocShape shape type device = (.ok t, w')) : w'.context.Admits P t := by
  have hallocated := w.allocShape_allocated shape type device
  have hsupplies := w.allocShape_supplies shape type device
  rw [h] at hallocated hsupplies
  refine (hsupplies.yields t rfl).agrees.admits fun hd => ?_
  exact absurd (hallocated.isCpu.symm.trans hd) (by decide)

private theorem reports_allocShape (w : Workspace) (shape : Shape) (type : ElementType)
    (hd : device.isAvailable = false → P (.alloc (.device device))) :
    Reports P (w.allocShape shape type device).1 := by
  unfold allocShape
  cases havailable : device.isAvailable with
  | false => exact reports_reject.2 (.inr (hd havailable))
  | true =>
    simp only [Bool.not_true, Bool.false_eq_true, if_false]
    split
    · exact reports_of_eq (Shape.reports_numel shape) ‹_›
    · exact Tensor.reports_borrowed none shape type device
    · split
      · exact reports_of_eq (Shape.reports_byteSize shape type) ‹_›
      · split
        · exact reports_reject.2 (.inl (Buffer.isOrdinary_of_allocate havailable ‹_›))
        · exact Tensor.reports_owned _ shape type device

private theorem reports_alloc (w : Workspace) (extents : List Nat) (type : ElementType)
    (hd : device.isAvailable = false → P (.alloc (.device device))) : Reports P (w.alloc extents type device).1 := by
  unfold alloc
  split
  · exact reports_allocShape w _ type hd
  · exact reports_of_eq (Dims.reports_ofList extents) ‹_›

private theorem reports_ofList (w : Workspace) (data : List (BitVec type.width)) (extents : List Nat)
    (hd : device.isAvailable = false → P (.alloc (.device device))) :
    Reports P (w.ofList type data extents device).1 := by
  unfold ofList
  split
  · exact reports_of_eq (Dims.reports_ofList extents) ‹_›
  · rename_i shape _
    split
    · exact reports_of_eq (Shape.reports_numel shape) ‹_›
    · split
      · exact reports_reject.2 (.inl rfl)
      · have halloc := reports_allocShape w shape type hd
        split
        · exact reports_of_eq halloc (congrArg Prod.fst ‹_›)
        · rename_i t w' h
          have hwrite := Context.reports_updateHost (P := P) (admits_of_allocShape h)
            (f := fun contents => contents.setElement 0 (data.flatMap type.encode))
            fun _ => Bytes.reports_setElement _ _ _
          simp only
          split
          · exact reports_ok t
          · exact reports_of_eq hwrite (congrArg Prod.fst ‹_›)

private theorem reports_ofScalar (w : Workspace) (value : Scalar)
    (hd : device.isAvailable = false → P (.alloc (.device device))) : Reports P (w.ofScalar value device).1 := by
  have halloc := reports_allocShape w .empty value.type hd
  unfold ofScalar
  split
  · exact reports_of_eq halloc (congrArg Prod.fst ‹_›)
  · rename_i t w' h
    have hwrite := Context.reports_fill (P := P) (admits_of_allocShape h) value
    split
    · exact reports_ok t
    · exact reports_of_eq hwrite (congrArg Prod.fst ‹_›)

private theorem reports_wrap (w : Workspace) (address : Address) (contents : Bytes) (extents : List Nat)
    (type : ElementType)
    (device : Device) : Reports P (w.wrap address contents extents type device).1 := by
  unfold wrap
  simp only
  split
  · exact reports_of_eq (Dims.reports_ofList extents) ‹_›
  · rename_i shape _
    split
    · exact reports_of_eq (Shape.reports_byteSize shape type) ‹_›
    · split
      · exact reports_reject.2 (.inl rfl)
      · exact Tensor.reports_borrowed _ shape type device

/-- The source is looked at after memory has been taken for the copy. -/
private theorem reports_duplicate {source : Tensor}
    (hsource : ∀ w', Effects w.resources.nextBuffer w w' → w'.context.Admits P source)
    (hd : device.isAvailable = false → P (.alloc (.device device))) : Reports P (w.duplicate source device).1 := by
  have hsupplies := w.allocShape_supplies source.shape source.type device
  have halloc := reports_allocShape w source.shape source.type hd
  unfold duplicate
  split
  · exact reports_of_eq halloc (congrArg Prod.fst ‹_›)
  · rename_i t w' h
    rw [h] at hsupplies
    have hcopy := Context.reports_copy (hsource w' hsupplies.effects) (admits_of_allocShape h)
    split
    · exact reports_ok t
    · exact reports_of_eq hcopy (congrArg Prod.fst ‹_›)

/-- A transfer between devices is blamed on the target. -/
private theorem reports_toDevice {source : Tensor}
    (hsource : ∀ w', Effects w.resources.nextBuffer w w' → w'.context.Admits P source)
    (hd : (CopyDirection.between source.device device).isSupported = false → P (.device device)) :
    Reports P (w.toDevice source device).1 := by
  unfold toDevice
  split
  · exact reports_ok _
  · cases hsupported : (CopyDirection.between source.device device).isSupported with
    | false => exact reports_reject.2 (.inr (hd hsupported))
    | true =>
      refine reports_duplicate hsource fun hnone => ?_
      unfold CopyDirection.between at hsupported
      rw [show device.isCpu = false from hnone] at hsupported
      cases hcpu : source.device.isCpu <;> simp [hcpu, CopyDirection.isSupported] at hsupported

private theorem reports_detach (w : Workspace) (t : Tensor) : Reports P (w.detach t).1 := by
  unfold detach
  split
  · exact reports_reject.2 (.inl rfl)
  · split
    · exact reports_reject.2 (.inl rfl)
    · split
      · exact reports_reject.2 (.inl rfl)
      · exact reports_ok ()

end Workspace

/-! ### Commands -/

/-- The tensors of a call are those that stand under its handles. -/
private theorem KernelCall.exists_of_operands? {τ σ : Type} {f : τ → Option σ} {call : KernelCall τ}
    {operands : KernelCall σ}
    (h : call.operands? f = some operands) : ∀ t ∈ operands.toList, ∃ x ∈ call.toList, f x = some t := by
  cases call with
  | unary | scalarOp | reduceLast | argmax =>
    simp only [operands?, Option.bind_eq_bind, Option.bind_eq_some_iff, Option.pure_def, Option.some.injEq] at h
    obtain ⟨x, hx, o, ho, rfl⟩ := h
    simp [toList, hx, ho]
  | binary | gemm | matmul =>
    simp only [operands?, Option.bind_eq_bind, Option.bind_eq_some_iff, Option.pure_def, Option.some.injEq] at h
    obtain ⟨x, hx, y, hy, o, ho, rfl⟩ := h
    simp [toList, hx, hy, ho]

/-- The tensors that a command names, but for the one that it makes. -/
def Command.operands : Command → List Handle
  | contiguous _ x | toDevice _ x _ | view _ x _ | set x _ _ | fill x _ | release x | detach x | info x
  | canReshape x _ | canSlice x _ _ _ | elementOffset x _ | offsets x | isLive x | validate x | toList x _
  | elements x | get x _ | toScalar x | reduceAll _ x | buffer x => [x]
  | copy x y | pair x y => [x, y]
  | kernel call => call.toList
  | null _ _ _ _ | alloc _ _ _ _ | ofList _ _ _ _ _ | ofScalar _ _ _ | wrap _ _ _ _ _ _ | drop | context => []

/-- The error that a reply reports, of the command itself or of reading back what it wrote. -/
def Reply.reported? : Result Reply → Option TensorError
  | .error (.error e) => some e
  | .ok (.wrote (.error e)) => some e
  | _ => none

namespace Session

open Workspace

/-- The device on which a command asks for a tensor. -/
def target? (s : Session) : Command → Option Device
  | .null _ _ _ device | .alloc _ _ _ device | .ofList _ _ _ _ device | .ofScalar _ _ device
  | .wrap _ _ _ _ _ device | .toDevice _ _ device => some device
  | .contiguous _ x => (s.tensor? x).map Tensor.device
  | _ => none

variable {s s' : Session} {k : Nat} {c : Context}

/-- If the client is told of an error that is not ordinary, then it is as `P` says. -/
private def Tells (P : TensorError → Prop) (reply : Result Reply) : Prop :=
  ∀ e, Reply.reported? reply = some e → e.isOrdinary = true ∨ P e

private theorem tells_error {e : Failure} {α : Type} (h : Reports P (.error e : Result α)) : Tells P (.error e) := by
  intro e' he
  cases e with
  | error e =>
    obtain rfl : e = e' := by simpa [Reply.reported?] using he
    exact h e rfl
  | fault f => simp [Reply.reported?] at he

private theorem tells_ok {reply : Reply} (h : Reply.reported? (.ok reply) = none) : Tells P (.ok reply) := by
  intro e he
  simp [h] at he

private theorem tells_map {α : Type} {r : Result α} {g : α → Reply} (h : Reports P r)
    (hg : ∀ a, Reply.reported? (.ok (g a)) = none) : Tells P (g <$> r) := by
  cases r with
  | error e => exact tells_error h
  | ok a => exact tells_ok (hg a)

private theorem tells_bindResult {out : Handle} {o : Result Tensor × Workspace} (h : Reports P o.1) :
    Tells P (s.bindResult k out o).1 := by
  obtain ⟨r, w⟩ := o
  cases r with
  | error e => exact tells_error h
  | ok t => exact tells_ok rfl

private theorem tells_readBack {r : Resources} {t : Tensor} {o : Result Unit × Context} (h : Reports P o.1)
    (ht : o.2.Admits P t) : Tells P (s.readBack k r t o).1 := by
  obtain ⟨result, c'⟩ := o
  cases result with
  | error e => exact tells_error h
  | ok _ =>
    have hread := Context.reports_elements ht
    unfold readBack
    simp only
    split
    · exact tells_ok rfl
    · rename_i e helements
      intro e' he
      obtain rfl : e = e' := by simpa [Reply.reported?] using he
      exact hread e helements
    · exact tells_error (α := Reply) (reports_halt _)

/-- Of the errors that are not ordinary, a client is told of those that may be reported about the tensors that a command
names, in whatever state the operation leaves them, and of the device on which it asks for a tensor. -/
theorem step_reports (hc : s.context? k = some c) {command : Command} {reply : Result Reply}
    (hoperands : ∀ x ∈ command.operands, ∀ t, s.tensor? x = some t → ∀ w,
      Effects s.resources.nextBuffer ⟨c, s.resources⟩ w → w.context.Admits P t)
    (htarget : ∀ device, s.target? command = some device → device.isAvailable = false → P (.alloc (.device device)))
    (hmove : ∀ out x t device, command = .toDevice out x device → s.tensor? x = some t →
      (CopyDirection.between t.device device).isSupported = false → P (.device device))
    (h : s.step k command = some (reply, s')) : ∀ e, Reply.reported? reply = some e → e.isOrdinary = true ∨ P e := by
  have hadmits : ∀ x ∈ command.operands, ∀ t, s.tensor? x = some t → c.Admits P t := fun x hx t ht =>
    hoperands x hx t ht _ .refl
  -- what has been written is read back
  have hwritten : ∀ x ∈ command.operands, ∀ t, s.tensor? x = some t → ∀ {c' : Context}, c'.blank = c.blank →
      c'.Admits P t := fun x hx t ht c' hc' => hoperands x hx t ht ⟨c', s.resources⟩ (.single (.write hc'))
  change Tells P reply
  unfold step at h
  simp only [hc, Option.bind_eq_bind, Option.bind_some, Option.pure_def] at h
  cases command
  all_goals simp only [Option.bind_eq_some_iff, Option.some.injEq] at h
  case null out extents type device =>
    obtain rfl := congrArg Prod.fst h
    exact tells_bindResult (reports_bind (Dims.reports_ofList extents) fun shape =>
      Tensor.reports_borrowed none shape type device)
  case alloc out extents type device =>
    obtain rfl := congrArg Prod.fst h
    exact tells_bindResult (reports_alloc _ extents type (htarget device rfl))
  case ofList out type data extents device =>
    obtain rfl := congrArg Prod.fst h
    exact tells_bindResult (reports_ofList _ data extents (htarget device rfl))
  case ofScalar out value device =>
    obtain rfl := congrArg Prod.fst h
    exact tells_bindResult (reports_ofScalar _ value (htarget device rfl))
  case wrap out address contents extents type device =>
    obtain rfl := congrArg Prod.fst h
    exact tells_bindResult (reports_wrap _ address contents extents type device)
  case contiguous out x =>
    obtain ⟨t, ht, h⟩ := h
    obtain rfl := congrArg Prod.fst h
    exact tells_bindResult (reports_duplicate (hoperands x (by simp [Command.operands]) t ht)
      (htarget t.device (congrArg (Option.map Tensor.device) ht)))
  case toDevice out x device =>
    obtain ⟨t, ht, h⟩ := h
    obtain rfl := congrArg Prod.fst h
    exact tells_bindResult (reports_toDevice (hoperands x (by simp [Command.operands]) t ht)
      (hmove out x t device rfl ht))
  case view out x op =>
    obtain ⟨t, -, h⟩ := h
    obtain rfl := congrArg Prod.fst h
    exact tells_bindResult (op.reports_apply t)
  case set x index value =>
    obtain ⟨t, ht, h⟩ := h
    obtain rfl := congrArg Prod.fst h
    have hx : x ∈ (Command.set x index value).operands := List.mem_singleton.2 rfl
    exact tells_readBack (Context.reports_set (hadmits x hx t ht) index value)
      (hwritten x hx t ht (c.blank_set t index value))
  case fill x value =>
    obtain ⟨t, ht, h⟩ := h
    obtain rfl := congrArg Prod.fst h
    have hx : x ∈ (Command.fill x value).operands := List.mem_singleton.2 rfl
    exact tells_readBack (Context.reports_fill (hadmits x hx t ht) value) (hwritten x hx t ht (c.blank_fill t value))
  case copy source target =>
    obtain ⟨t, ht, u, hu, h⟩ := h
    obtain rfl := congrArg Prod.fst h
    have htarget : target ∈ (Command.copy source target).operands := by simp [Command.operands]
    exact tells_readBack (Context.reports_copy (hadmits source (by simp [Command.operands]) u hu)
      (hadmits target htarget t ht)) (hwritten target htarget t ht (c.blank_copy u t))
  case kernel call =>
    obtain ⟨operands, hcall, h⟩ := h
    obtain rfl := congrArg Prod.fst h
    have hnamed := KernelCall.exists_of_operands? hcall
    obtain ⟨o, ho, hout⟩ := hnamed _ operands.output_mem_toList
    refine tells_readBack (Context.reports_launch fun t ht => ?_)
      (hwritten o ho _ hout (c.launch_confined operands).within.blank)
    obtain ⟨x, hx, ht⟩ := hnamed t ht
    exact hadmits x hx t ht
  case detach x =>
    obtain ⟨t, -, h⟩ := h
    obtain rfl := congrArg Prod.fst h
    exact tells_map (reports_detach _ t) fun _ => rfl
  case canReshape x extents =>
    obtain ⟨t, -, h⟩ := h
    obtain rfl := congrArg Prod.fst h
    exact tells_map (t.reports_canReshape extents) fun _ => rfl
  case elementOffset x index =>
    obtain ⟨t, -, h⟩ := h
    obtain rfl := congrArg Prod.fst h
    exact tells_map (t.reports_elementOffset index) fun _ => rfl
  case offsets x =>
    obtain ⟨t, -, h⟩ := h
    obtain rfl := congrArg Prod.fst h
    have hread : Reports P (do return (← t.numel, ← t.offsets) : Result (Nat × List Nat)) := by grind
    have htells := tells_map (g := fun p => Reply.offsets p.1 p.2) hread fun _ => rfl
    simpa using htells
  case validate x =>
    obtain ⟨t, ht, h⟩ := h
    obtain rfl := congrArg Prod.fst h
    exact tells_map (Context.reports_validate (hadmits x (List.mem_singleton.2 rfl) t ht)) fun _ => rfl
  case toList x type =>
    obtain ⟨t, ht, h⟩ := h
    obtain rfl := congrArg Prod.fst h
    exact tells_map (Context.reports_toList (hadmits x (List.mem_singleton.2 rfl) t ht) _) fun _ => rfl
  case elements x =>
    obtain ⟨t, ht, h⟩ := h
    obtain rfl := congrArg Prod.fst h
    exact tells_map (Context.reports_elements (hadmits x (List.mem_singleton.2 rfl) t ht)) fun _ => rfl
  case get x index =>
    obtain ⟨t, ht, h⟩ := h
    obtain rfl := congrArg Prod.fst h
    exact tells_map (Context.reports_get (hadmits x (List.mem_singleton.2 rfl) t ht) index) fun _ => rfl
  case toScalar x =>
    obtain ⟨t, ht, h⟩ := h
    obtain rfl := congrArg Prod.fst h
    exact tells_map (Context.reports_toScalar (hadmits x (List.mem_singleton.2 rfl) t ht)) fun _ => rfl
  case reduceAll op x =>
    obtain ⟨t, ht, h⟩ := h
    obtain rfl := congrArg Prod.fst h
    exact tells_map (Context.reports_reduceAll op (hadmits x (List.mem_singleton.2 rfl) t ht)) fun _ => rfl
  case drop | context =>
    obtain rfl := congrArg Prod.fst h
    exact tells_ok rfl
  case pair x y =>
    obtain ⟨_, -, _, -, h⟩ := h
    obtain rfl := congrArg Prod.fst h
    exact tells_ok rfl
  case release x | info x | canSlice x dim start stop | isLive x | buffer x =>
    obtain ⟨_, -, h⟩ := h
    obtain rfl := congrArg Prod.fst h
    exact tells_ok rfl

end Session

end StridedTensor
