import StridedTensor.Proofs.Density
import StridedTensor.Proofs.Effect
import StridedTensor.Session.Event

/-!
# Outcomes of commands

What the operations on a workspace do is a chain of effects, and a tensor that one of them yields owns a buffer that
is new, refers to memory that the caller has just lent, or refers to nothing (`Workspace.Supplies`). From this follow
the kinds of sessions that a command can leave behind (`Session.step_outcome`): it acts on one context and the
resources, and binds at most one tensor.
-/

namespace StridedTensor

/-! ### Writes -/

namespace Bytes

theorem size_setElement {contents contents' : Bytes} {offset : Nat} {bytes : List UInt8}
    (h : contents.setElement offset bytes = .ok contents') : contents'.size = contents.size := by
  unfold setElement at h
  split at h
  · obtain rfl : _ = contents' := by simpa using h
    exact size_write _ _ _
  · simp at h

end Bytes

namespace Context

variable {c : Context} {t : Tensor}

private theorem host_eq_ok {contents : Bytes} (h : c.host t = .ok contents) {id : BufferId} (hid : t.buffer = some id) :
    ∃ b, c.arena.get? id = some b ∧ contents = b.contents := by
  unfold host at h
  obtain ⟨found, hcheck, h⟩ := Result.bind_eq_ok.1 h
  obtain ⟨-, hfound⟩ := check_eq_ok.1 hcheck
  rw [hid] at hfound
  obtain ⟨b, s, hb, -, -, -, rfl⟩ := hfound
  refine ⟨b, hb, ?_⟩
  simp only [Buffer.hostBytes] at h
  split at h
  · simpa using h.symm
  · simp at h

theorem blank_updateHost {f : Bytes → Result Bytes} (hf : ∀ x y, f x = .ok y → y.size = x.size) :
    (c.updateHost t f).2.blank = c.blank := by
  unfold updateHost
  cases h : c.host t >>= f with
  | error e => rfl
  | ok contents =>
    obtain ⟨old, hold, hnew⟩ := Result.bind_eq_ok.1 h
    cases hid : t.buffer with
    | none =>
      unfold setContents
      rw [hid]
    | some id =>
      obtain ⟨b, hb, rfl⟩ := host_eq_ok hold hid
      exact blank_setContents hid hb (hf _ _ hnew)

theorem blank_set (c : Context) (t : Tensor) (index : List Nat) (value : Scalar) :
    (c.set t index value).2.blank = c.blank := by
  unfold set
  split
  · rfl
  · exact blank_updateHost fun _ _ => Bytes.size_setElement

theorem blank_fill (c : Context) (t : Tensor) (value : Scalar) : (c.fill t value).2.blank = c.blank := by
  apply blank_updateHost
  intro x y h
  obtain ⟨_, -, h⟩ := Result.bind_eq_ok.1 h
  exact Result.foldlM_induct (motive := fun z => z.size = x.size)
    (fun _ _ _ _ hz hstep => (Bytes.size_setElement hstep).trans hz) h rfl

private theorem blank_scatter (c : Context) (t : Tensor) (elements : List (List UInt8)) :
    (c.scatter t elements).2.blank = c.blank := by
  apply blank_updateHost
  intro x y h
  obtain ⟨_, -, h⟩ := Result.bind_eq_ok.1 h
  exact Result.foldlM_induct (motive := fun z => z.size = x.size)
    (fun _ _ _ _ hz hstep => (Bytes.size_setElement hstep).trans hz) h rfl

theorem blank_copy (c : Context) (source target : Tensor) : (c.copy source target).2.blank = c.blank := by
  unfold copy
  split
  · rfl
  · exact blank_scatter c target _

end Context

/-! ### Tensors that operations yield -/

/-- The tensor owns the buffer `id`, and lists its elements, of which there are some, from the start in row-major
order. -/
structure Tensor.Owns (t : Tensor) (id : BufferId) : Prop where
  ownership : t.ownership = true
  buffer : t.buffer = some id
  offset : t.offset = 0
  canonical : Layout.canonical t.shape t.type = .ok t.layout
  device : t.device.isCpu = true
  elements : ∃ n, t.numel = .ok n ∧ 0 < n

/-- The context holds the buffer `id` of the owner `t`: it is from the allocator of the context, and just as long as
the elements of `t` together. -/
def Context.Keeps (c : Context) (t : Tensor) (id : BufferId) : Prop :=
  ∃ b, c.arena.get? id = some b ∧ b.origin = .owned c.allocator ∧ b.device = t.device ∧ t.nbytes = .ok b.size

/-- A buffer that is there but for its bytes. -/
theorem Context.get?_of_blank {c c' : Context} {id : BufferId} {b : Buffer}
    (h : (c'.arena.get? id).map Buffer.blank = (c.arena.get? id).map Buffer.blank) (hb : c.arena.get? id = some b) :
    ∃ b', c'.arena.get? id = some b' ∧ b'.blank = b.blank := by
  rw [hb, Option.map_some, Option.map_eq_some_iff] at h
  exact h

theorem Buffer.size_eq_of_blank {b b' : Buffer} (h : b'.blank = b.blank) : b'.size = b.size := by
  have hsize := congrArg Buffer.size h
  simpa [blank, size] using hsize

theorem Context.Keeps.of_blank {c c' : Context} {t : Tensor} {id : BufferId} (h : c.Keeps t id)
    (hc : c'.allocator = c.allocator)
    (hid : (c'.arena.get? id).map Buffer.blank = (c.arena.get? id).map Buffer.blank) : c'.Keeps t id := by
  obtain ⟨b, hb, horigin, hdevice, hsize⟩ := h
  obtain ⟨b', hb', hsame⟩ := Context.get?_of_blank hid hb
  refine ⟨b', hb', ?_, ?_, ?_⟩
  · rw [hc, ← horigin]
    exact congrArg (·.origin) hsame
  · rw [← hdevice]
    exact congrArg (·.device) hsame
  · rw [Buffer.size_eq_of_blank hsame, hsize]

namespace Workspace

/-- What a tensor refers to that an operation from `w` to `w'` has made: nothing, a new buffer of its own, or a new
one that the caller lends. -/
inductive Yields (w w' : Workspace) (t : Tensor) : Prop
  | null (view : t.ownership = false) (buffer : t.buffer = none)
  | owner {id : BufferId} (new : w.resources.nextBuffer ≤ id) (owns : t.Owns id) (keeps : w'.context.Keeps t id)
  | lent {id : BufferId} {b : Buffer} (view : t.ownership = false) (buffer : t.buffer = some id)
      (new : w.resources.nextBuffer ≤ id) (held : w'.context.arena.get? id = some b) (device : b.device = t.device)

/-- The outcome of an operation on `w` that makes a tensor. -/
structure Supplies (w : Workspace) (outcome : Result Tensor × Workspace) : Prop where
  effects : Effects w.resources.nextBuffer w outcome.2
  yields : ∀ t, outcome.1 = .ok t → Yields w outcome.2 t

variable {w w' : Workspace} {t : Tensor}

private theorem Yields.write {c : Context} {r : Resources} (h : Yields w ⟨c, r⟩ t) {c' : Context}
    (hc : c'.blank = c.blank) :
    Yields w ⟨c', r⟩ t := by
  have hget : ∀ id, (c'.arena.get? id).map Buffer.blank = (c.arena.get? id).map Buffer.blank := fun id => by
    rw [← get?_blank, ← get?_blank, hc]
  cases h with
  | null view buffer => exact .null view buffer
  | owner new owns keeps => exact .owner new owns (keeps.of_blank (congrArg (·.allocator) hc) (hget _))
  | lent view buffer new held device =>
    obtain ⟨b', hb', hsame⟩ := Context.get?_of_blank (hget _) held
    refine .lent view buffer new hb' ?_
    rw [← device]
    exact congrArg (·.device) hsame

private theorem Supplies.error (e : Failure) : Supplies w (.error e, w) := ⟨.refl, by simp⟩

private theorem Supplies.reject (e : TensorError) : Supplies w (Result.reject e, w) := ⟨.refl, by simp⟩

private theorem borrowed_eq_ok {buffer : Option BufferId} {shape : Shape} {type : ElementType} {device : Device}
    (h : Tensor.borrowed buffer shape type device = .ok t) :
    t.ownership = false ∧ t.buffer = buffer ∧ t.device = device := by
  obtain ⟨layout, -, h⟩ := Result.bind_eq_ok.1 h
  obtain rfl := Result.pure_eq_ok.1 h
  exact ⟨rfl, rfl, rfl⟩

private theorem owned_eq_ok {id : BufferId} {shape : Shape} {type : ElementType} {device : Device} {n : Nat}
    (hn : shape.numel = .ok n) (h0 : 0 < n) (hcpu : device.isCpu = true)
    (h : Tensor.owned id shape type device = .ok t) :
    t.Owns id ∧ t.shape = shape ∧ t.type = type ∧ t.device = device := by
  obtain ⟨layout, hlayout, h⟩ := Result.bind_eq_ok.1 h
  obtain rfl := Result.pure_eq_ok.1 h
  obtain ⟨rfl, -⟩ := Layout.distance_canonical hlayout
  exact ⟨⟨rfl, rfl, rfl, hlayout, hcpu, n, hn, h0⟩, rfl, rfl, rfl⟩

theorem allocShape_supplies (w : Workspace) (shape : Shape) (type : ElementType) (device : Device) :
    Supplies w (w.allocShape shape type device) := by
  unfold allocShape
  split
  · exact .reject _
  · split
    · exact .error _
    · refine ⟨.refl, fun t ht => ?_⟩
      obtain ⟨hview, hbuffer, -⟩ := borrowed_eq_ok ht
      exact .null hview hbuffer
    · rename_i n h0 hn
      split
      · exact .error _
      · rename_i size hsize
        simp only
        split
        · rename_i e r' h
          exact ⟨.single (.refuse h), by simp⟩
        · rename_i b r' h
          refine ⟨.single (.make h), fun t ht => ?_⟩
          obtain ⟨address, -, -, hcpu, hb, hr⟩ := Buffer.allocate_eq_ok h
          obtain ⟨howns, rfl, rfl, rfl⟩ := owned_eq_ok hn (Nat.pos_of_ne_zero h0) hcpu ht
          have hnext : r'.nextBuffer = w.resources.nextBuffer := by rw [hr, Resources.nextBuffer_setAllocator]
          refine .owner hnext.ge howns
            ⟨b, (Table.get?_insert _ _ _ _).trans (if_pos rfl), ?_, ?_, ?_⟩
          · rw [hb]
          · rw [hb]
          · rw [hb, Buffer.size, Array.size_replicate]
            exact hsize

private theorem alloc_supplies (w : Workspace) (extents : List Nat) (type : ElementType) (device : Device) :
    Supplies w (w.alloc extents type device) := by
  unfold alloc
  split
  · exact allocShape_supplies w _ type device
  · exact .error _

/-- What an operation has made itself it may release. -/
private theorem Supplies.release {r : Result Tensor} (h : Supplies w (r, w')) {t : Tensor} (ht : r = .ok t) :
    Effects w.resources.nextBuffer w (w'.release t).2 := by
  unfold Workspace.release
  split
  · exact h.effects
  · unfold Tensor.disown
    cases h.yields t ht with
    | null view buffer =>
      rw [view]
      exact h.effects
    | lent view buffer new held device =>
      rw [view]
      exact h.effects
    | owner new owns keeps =>
      rw [owns.ownership, owns.buffer]
      exact h.effects.tail (.dispose _ new)

/-- A tensor is made and then filled; if that fails, it may be released. -/
private theorem Supplies.fill {r : Result Tensor} {w' : Workspace} (h : Supplies w (r, w')) {t : Tensor}
    (ht : r = .ok t)
    {c : Context} (hc : c.blank = w'.context.blank) : Supplies w (.ok t, { w' with context := c }) where
  effects := h.effects.tail (.write hc)
  yields t' ht' := by
    obtain rfl : t = t' := by simpa using ht'
    exact (h.yields t ht).write hc

private theorem ofList_supplies (w : Workspace) (type : ElementType) (data : List (BitVec type.width))
    (extents : List Nat)
    (device : Device) : Supplies w (w.ofList type data extents device) := by
  unfold ofList
  split
  · exact .error _
  · split
    · exact .error _
    · split
      · exact .reject _
      · have halloc := allocShape_supplies w ‹Shape› type device
        split
        · rename_i e w' h
          rw [h] at halloc
          exact ⟨halloc.effects, by simp⟩
        · rename_i t w' h
          rw [h] at halloc
          have hblank := w'.context.blank_updateHost (t := t)
            (f := fun contents => contents.setElement 0 (data.flatMap type.encode)) fun _ _ => Bytes.size_setElement
          simp only
          split
          · rename_i c hc
            rw [hc] at hblank
            exact halloc.fill rfl hblank
          · rename_i e c hc
            rw [hc] at hblank
            exact ⟨(halloc.fill rfl hblank).release rfl, by simp⟩

private theorem ofScalar_supplies (w : Workspace) (value : Scalar) (device : Device) :
    Supplies w (w.ofScalar value device) := by
  have halloc := allocShape_supplies w .empty value.type device
  unfold ofScalar
  split
  · rename_i e w' h
    rw [h] at halloc
    exact ⟨halloc.effects, by simp⟩
  · rename_i t w' h
    rw [h] at halloc
    have hblank := w'.context.blank_fill t value
    split
    · rename_i c hc
      rw [hc] at hblank
      exact halloc.fill rfl hblank
    · rename_i e c hc
      rw [hc] at hblank
      exact ⟨(halloc.fill rfl hblank).effects, by simp⟩

private theorem duplicate_supplies (w : Workspace) (source : Tensor) (device : Device) :
    Supplies w (w.duplicate source device) := by
  have halloc := allocShape_supplies w source.shape source.type device
  unfold duplicate
  split
  · rename_i e w' h
    rw [h] at halloc
    exact ⟨halloc.effects, by simp⟩
  · rename_i t w' h
    rw [h] at halloc
    have hblank := w'.context.blank_copy source t
    split
    · rename_i c hc
      rw [hc] at hblank
      exact halloc.fill rfl hblank
    · rename_i e c hc
      rw [hc] at hblank
      exact ⟨(halloc.fill rfl hblank).release rfl, by simp⟩

private theorem wrap_supplies (w : Workspace) (address : Address) (contents : Bytes) (extents : List Nat)
    (type : ElementType) (device : Device) : Supplies w (w.wrap address contents extents type device) := by
  unfold wrap
  simp only
  split
  · exact ⟨.single (.lend contents), by simp⟩
  · split
    · exact ⟨.single (.lend contents), by simp⟩
    · split
      · exact ⟨.single (.lend contents), by simp⟩
      · refine ⟨.single (.wrap address contents device rfl rfl), fun t ht => ?_⟩
        obtain ⟨hview, hbuffer, hdevice⟩ := borrowed_eq_ok ht
        exact .lent hview hbuffer (Nat.le_refl _) ((Table.get?_insert _ _ _ _).trans (if_pos rfl)) hdevice.symm

end Workspace

/-! ### Views -/

/-- The tensor refers to the buffer of `u`, which it does not own. -/
structure Tensor.DerivesFrom (t u : Tensor) : Prop where
  view : t.ownership = false
  buffer : t.buffer = u.buffer
  device : t.device = u.device

private theorem Tensor.derivesFrom_view (u : Tensor) : u.view.DerivesFrom u := ⟨rfl, rfl, rfl⟩

private theorem Tensor.derivesFrom_withLayout (u : Tensor) (l : Layout) (offset : Nat) :
    Tensor.DerivesFrom { u.withLayout l with offset } u := ⟨rfl, rfl, rfl⟩

private theorem Tensor.derivesFrom_reshape {t u : Tensor} {extents : List Nat} (h : u.reshape extents = .ok t) :
    t.DerivesFrom u := by
  obtain ⟨shape, -, h⟩ := Result.bind_eq_ok.1 h
  obtain ⟨n, -, h⟩ := Result.bind_eq_ok.1 h
  obtain ⟨m, -, h⟩ := Result.bind_eq_ok.1 h
  split at h
  · simp at h
  · obtain ⟨contiguous, -, h⟩ := Result.bind_eq_ok.1 h
    split at h
    · simp at h
    · obtain ⟨l, -, h⟩ := Result.bind_eq_ok.1 h
      obtain rfl := Result.pure_eq_ok.1 h
      exact u.derivesFrom_withLayout l _

private theorem ViewOp.derivesFrom_apply {op : ViewOp} {t u : Tensor} (h : op.apply u = .ok t) : t.DerivesFrom u := by
  cases op with
  | view =>
    obtain rfl : u.view = t := by simpa [apply] using h
    exact u.derivesFrom_view
  | asStrided extents strides offset =>
    obtain ⟨shape, -, h⟩ := Result.bind_eq_ok.1 h
    obtain ⟨steps, -, h⟩ := Result.bind_eq_ok.1 h
    split at h
    · obtain rfl := Result.pure_eq_ok.1 h
      exact u.derivesFrom_withLayout _ offset
    · simp at h
  | reshape extents => exact Tensor.derivesFrom_reshape h
  | flatten =>
    obtain ⟨n, -, h⟩ := Result.bind_eq_ok.1 h
    exact Tensor.derivesFrom_reshape h
  | transpose =>
    obtain rfl : u.transpose = t := by simpa [apply] using h
    exact u.derivesFrom_withLayout _ _
  | slice dim start stop =>
    simp only [apply, Tensor.slice] at h
    split at h
    · simp at h
    · obtain ⟨distance, -, h⟩ := Result.bind_eq_ok.1 h
      obtain ⟨offset, -, h⟩ := Result.bind_eq_ok.1 h
      obtain rfl := Result.pure_eq_ok.1 h
      exact u.derivesFrom_withLayout _ offset
  | squeeze =>
    obtain rfl : u.squeeze = t := by simpa [apply] using h
    exact u.derivesFrom_withLayout _ _
  | squeezeDim dim =>
    simp only [apply, Tensor.squeezeDim] at h
    split at h
    · simp at h
    · split at h
      · obtain rfl : u.view = t := by simpa using h
        exact u.derivesFrom_view
      · obtain rfl : u.withLayout (u.layout.erase dim) = t := by simpa using h
        exact u.derivesFrom_withLayout _ _
  | unsqueeze dim =>
    simp only [apply, Tensor.unsqueeze] at h
    split at h
    · simp at h
    · obtain ⟨l, -, h⟩ := Result.bind_eq_ok.1 h
      obtain rfl := Result.pure_eq_ok.1 h
      exact u.derivesFrom_withLayout l _
  | permute permutation =>
    simp only [apply, Tensor.permute] at h
    split at h
    · obtain rfl : u.withLayout (u.layout.gather fun i => permutation.getD i 0) = t := by simpa using h
      exact u.derivesFrom_withLayout _ _
    · simp at h
  | expand extents =>
    obtain ⟨shape, -, h⟩ := Result.bind_eq_ok.1 h
    obtain ⟨l, -, h⟩ := Result.bind_eq_ok.1 h
    obtain rfl := Result.pure_eq_ok.1 h
    exact u.derivesFrom_withLayout l _

/-! ### Commands -/

namespace Session

open Workspace

variable {s s' : Session} {k : Nat} {c : Context}

theorem getElem?_of_context? (hc : s.context? k = some c) : s.contexts[k]? = some (some c) := by
  simpa [context?, Option.join_eq_some_iff] using hc

theorem setWorkspace_self (hc : s.context? k = some c) : s.setWorkspace k ⟨c, s.resources⟩ = s := by
  obtain ⟨hk, hget⟩ := List.getElem?_eq_some_iff.1 (getElem?_of_context? hc)
  have hset : s.contexts.set k (some c) = s.contexts := by rw [← hget, List.set_getElem_self]
  unfold setWorkspace
  simp only [hset]

/-- What a command in context `k` can leave behind. -/
inductive Outcome (s : Session) (k : Nat) (c : Context) : Session → Prop
  | read : Outcome s k c s
  | act {w : Workspace} (effects : Effects s.resources.nextBuffer ⟨c, s.resources⟩ w) :
      Outcome s k c (s.setWorkspace k w)
  | keep {x : Handle} {t : Tensor} (bound : s.tensor? x = some t) : Outcome s k c (s.bind x t)
  | derive {x y : Handle} {t u : Tensor} (bound : s.tensor? y = some u) (view : t.DerivesFrom u) :
      Outcome s k c (s.bind x t)
  | yield {w : Workspace} {x : Handle} {t : Tensor} (effects : Effects s.resources.nextBuffer ⟨c, s.resources⟩ w)
      (yields : Yields ⟨c, s.resources⟩ w t) : Outcome s k c ((s.setWorkspace k w).bind x t)
  | release {x : Handle} {t : Tensor} {id : BufferId} (bound : s.tensor? x = some t) (owner : t.ownership = true)
      (buffer : t.buffer = some id) (held : c.arena.contains id = true) :
      Outcome s k c ((s.setWorkspace k (Workspace.dispose ⟨c, s.resources⟩ id)).bind x
        { t with buffer := none, ownership := false })
  | detach {id : BufferId} {b : Buffer} (held : c.arena.get? id = some b) (lent : b.isOwned = false) :
      Outcome s k c (s.setWorkspace k (Workspace.dispose ⟨c, s.resources⟩ id))
  | drop : Outcome s k c
      { s with contexts := s.contexts.set k none, resources := Workspace.drop ⟨c, s.resources⟩ }

private theorem bindResult_outcome {out : Handle} {o : Result Tensor × Workspace} (h : Supplies ⟨c, s.resources⟩ o) :
    Outcome s k c (s.bindResult k out o).2 := by
  obtain ⟨r, w⟩ := o
  cases r with
  | error e => exact .act h.effects
  | ok t => exact .yield h.effects (h.yields t rfl)

private theorem readBack_outcome {t : Tensor} {o : Result Unit × Context} (h : o.2.blank = c.blank) :
    Outcome s k c (s.readBack k s.resources t o).2 := by
  obtain ⟨r, c'⟩ := o
  cases r with
  | error e => exact .act (.single (.write h))
  | ok _ => exact .act (.single (.write h))

private theorem release_outcome (hc : s.context? k = some c) {x : Handle} {t : Tensor} (ht : s.tensor? x = some t) :
    Outcome s k c ((s.setWorkspace k (Workspace.release ⟨c, s.resources⟩ t).2).bind x
      (Workspace.release ⟨c, s.resources⟩ t).1) := by
  unfold Workspace.release Tensor.disown
  cases howner : t.ownership with
  | false =>
    -- a view is left as it is
    simp only [Bool.false_and, Option.any_false, Bool.false_eq_true, if_false, setWorkspace_self hc]
    exact .keep ht
  | true =>
    cases hid : t.buffer with
    | none =>
      simp only [Option.any_none, Bool.false_eq_true, if_false, if_true]
      exact .yield .refl (.null rfl rfl)
    | some id =>
      cases hheld : c.arena.contains id with
      | false =>
        simp only [Option.any_some, Bool.true_and, hheld, Bool.not_false, if_true, setWorkspace_self hc]
        exact .keep ht
      | true =>
        simp only [Option.any_some, Bool.true_and, hheld, Bool.not_true, Bool.false_eq_true, if_false, if_true]
        exact .release ht howner hid hheld

private theorem detach_outcome (hc : s.context? k = some c) (t : Tensor) :
    Outcome s k c (s.setWorkspace k (Workspace.detach ⟨c, s.resources⟩ t).2) := by
  unfold Workspace.detach
  split
  · rw [setWorkspace_self hc]
    exact .read
  · split
    · rw [setWorkspace_self hc]
      exact .read
    · rename_i id hid b hb
      split
      · rw [setWorkspace_self hc]
        exact .read
      · rename_i hlent
        exact .detach hb (by simpa using hlent)

theorem step_outcome (hc : s.context? k = some c) {command : Command} {reply : Result Reply}
    (h : s.step k command = some (reply, s')) : Outcome s k c s' := by
  have hself := setWorkspace_self hc
  unfold step at h
  simp only [hc, Option.bind_eq_bind, Option.bind_some, Option.pure_def] at h
  cases command
  all_goals simp only [Option.bind_eq_some_iff, Option.some.injEq] at h
  case null out extents type device =>
    obtain rfl := congrArg Prod.snd h
    refine bindResult_outcome ⟨.refl, fun t ht => ?_⟩
    obtain ⟨shape, -, ht⟩ := Result.bind_eq_ok.1 ht
    obtain ⟨hview, hbuffer, -⟩ := borrowed_eq_ok ht
    exact .null hview hbuffer
  case alloc out extents type device =>
    obtain rfl := congrArg Prod.snd h
    exact bindResult_outcome (alloc_supplies _ extents type device)
  case ofList out type data extents device =>
    obtain rfl := congrArg Prod.snd h
    exact bindResult_outcome (ofList_supplies _ type data extents device)
  case ofScalar out value device =>
    obtain rfl := congrArg Prod.snd h
    exact bindResult_outcome (ofScalar_supplies _ value device)
  case wrap out address contents extents type device =>
    obtain rfl := congrArg Prod.snd h
    exact bindResult_outcome (wrap_supplies _ address contents extents type device)
  case contiguous out x =>
    obtain ⟨t, -, h⟩ := h
    obtain rfl := congrArg Prod.snd h
    exact bindResult_outcome (duplicate_supplies _ t t.device)
  case toDevice out x device =>
    obtain ⟨t, ht, h⟩ := h
    obtain rfl := congrArg Prod.snd h
    unfold Workspace.toDevice
    split
    · show Outcome s k c ((s.setWorkspace k _).bind out t.view)
      rw [hself]
      exact .derive ht t.derivesFrom_view
    · split
      · exact bindResult_outcome (.reject _)
      · exact bindResult_outcome (duplicate_supplies _ t device)
  case view out x op =>
    obtain ⟨t, ht, h⟩ := h
    obtain rfl := congrArg Prod.snd h
    cases happly : op.apply t with
    | error e => exact bindResult_outcome (.error e)
    | ok v =>
      show Outcome s k c ((s.setWorkspace k _).bind out v)
      rw [hself]
      exact .derive ht (ViewOp.derivesFrom_apply happly)
  case set x index value =>
    obtain ⟨t, -, h⟩ := h
    obtain rfl := congrArg Prod.snd h
    exact readBack_outcome (c.blank_set t index value)
  case fill x value =>
    obtain ⟨t, -, h⟩ := h
    obtain rfl := congrArg Prod.snd h
    exact readBack_outcome (c.blank_fill t value)
  case copy source target =>
    obtain ⟨t, -, u, -, h⟩ := h
    obtain rfl := congrArg Prod.snd h
    exact readBack_outcome (c.blank_copy u t)
  case kernel call =>
    obtain ⟨operands, -, h⟩ := h
    obtain rfl := congrArg Prod.snd h
    exact readBack_outcome (c.launch_confined operands).within.blank
  case release x =>
    obtain ⟨t, ht, h⟩ := h
    obtain rfl := congrArg Prod.snd h
    exact release_outcome hc ht
  case detach x =>
    obtain ⟨t, -, h⟩ := h
    obtain rfl := congrArg Prod.snd h
    exact detach_outcome hc t
  case drop =>
    obtain rfl := congrArg Prod.snd h
    exact .drop
  case context =>
    obtain rfl := congrArg Prod.snd h
    exact .read
  case pair x y =>
    obtain ⟨_, -, _, -, h⟩ := h
    obtain rfl := congrArg Prod.snd h
    exact .read
  all_goals
    obtain ⟨_, -, h⟩ := h
    obtain rfl := congrArg Prod.snd h
    exact .read

end Session

end StridedTensor
