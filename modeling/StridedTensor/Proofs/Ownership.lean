import StridedTensor.Proofs.Replies

/-!
# Ownership

What a client can rely on in every session that can come about (`Session.Run.wellOwned`): a buffer has at most one
owner, the owner has the buffer for itself as long as the context lives in which it was made, and names of buffers are
not used again. No command reports an internal error.
-/

namespace StridedTensor

/-! ### Commands -/

/-- A tensor that refers to an old buffer is still in order after an operation that makes new ones. -/
private theorem Context.Agrees.of_effects {w w' : Workspace} {t : Tensor} {n : BufferId} (h : w.context.Agrees t)
    (heffects : Workspace.Effects n w w') (hn : n ≤ w.resources.nextBuffer)
    (hold : ∀ id, t.buffer = some id → id < n) : w'.context.Agrees t := by
  refine ⟨h.strides, fun {id b'} hid hb' => ?_⟩
  have hkept := heffects.grows.kept (hold id hid) (Nat.lt_of_lt_of_le (hold id hid) hn)
  obtain ⟨b, hb, hsame⟩ := Context.get?_of_blank hkept.symm hb'
  rw [← h.device hid hb]
  exact (congrArg (·.device) hsame).symm

namespace Session

open Workspace

variable {s s' : Session} {k : Nat} {c : Context} {home : BufferId → Option Nat}

/-- No command reports an internal error about tensors that are in order. -/
private theorem isInternal_eq_false_of_step (hc : s.context? k = some c)
    (hagrees : ∀ {x t}, s.tensor? x = some t → c.Agrees t)
    (hold : ∀ {x t id}, s.tensor? x = some t → t.buffer = some id → id < s.resources.nextBuffer)
    {command : Command} {reply : Result Reply} (h : s.step k command = some (reply, s')) {e : TensorError}
    (he : Reply.reported? reply = some e) : e.isInternal = false := by
  have hstay : ∀ x ∈ command.operands, ∀ t, s.tensor? x = some t → ∀ w,
      Effects s.resources.nextBuffer ⟨c, s.resources⟩ w → w.context.Admits (·.isInternal = false) t :=
    fun x _ t ht w hw =>
      (Context.Agrees.of_effects (hagrees ht) hw (Nat.le_refl _) fun id hid => hold ht hid).admits fun _ => rfl
  exact (step_reports hc hstay (fun _ _ _ => rfl) (fun _ _ _ _ _ _ _ => rfl) h e he).elim
    TensorError.isInternal_of_isOrdinary id

/-! ### Runs -/

/-- What a client can rely on; `home id` is the context in which the buffer `id` was made. -/
structure WellOwned (home : BufferId → Option Nat) (s : Session) : Prop where
  /-- No two tensors own one buffer. -/
  unique : ∀ {x y t u id}, s.tensor? x = some t → s.tensor? y = some u → t.ownership = true → u.ownership = true →
    t.buffer = some id → u.buffer = some id → x = y
  /-- An owner begins at the start of its buffer and has canonical strides. As long as the context lives in which the
  buffer was made, the owner validates there, and that context holds the buffer and no other does; it is on the host,
  comes from the allocator of the context, and is as long as the elements together. -/
  owner : ∀ {x t}, s.tensor? x = some t → t.ownership = true →
    ∃ id k n, t.buffer = some id ∧ home id = some k ∧ t.offset = 0 ∧
      Layout.canonical t.shape t.type = .ok t.layout ∧ t.numel = .ok n ∧
      ∀ c, s.context? k = some c → c.validate t = .ok () ∧
        (∃ b, c.arena.get? id = some b ∧ b.origin = .owned c.allocator ∧ b.device.isCpu = true ∧
          b.size = n * t.type.size) ∧
        ∀ j c', s.context? j = some c' → c'.arena.contains id = true → j = k
  /-- A tensor is on the device of its buffer, while any context holds that. -/
  device : ∀ {x t id k c b}, s.tensor? x = some t → t.buffer = some id → s.context? k = some c →
    c.arena.get? id = some b → b.device = t.device
  /-- A buffer that an event adds to a context has a name that no buffer has had before, and no event gives a name
  that has been used another home. -/
  fresh : ∀ {e s'}, s.perform e = some s' → ∀ id,
    (∀ k, home id = some k → homes home s s' e id = some k) ∧
      ∀ k c', s'.context? k = some c' → c'.arena.contains id = true →
        (∃ c, s.context? k = some c ∧ c.arena.contains id = true) ∨
          home id = none ∧ homes home s s' e id = some k
  /-- No command reports an internal error: a stride of zero or a device that does not match. -/
  regular : ∀ {k command reply s'}, s.step k command = some (reply, s') →
    ∀ e, Reply.reported? reply = some e → e.isInternal = false

/-- Every session that can come about is well owned. -/
theorem Run.wellOwned (h : Run home s) : WellOwned home s := by
  have hs := h.coherent
  refine ⟨fun {x y t u id} hx hy ht hu hid hid' => ?_, fun {x t} hx ht => ?_, hs.device, fun {e s'} he id => ?_,
    fun {k command reply s'} hstep => ?_⟩
  · obtain ⟨i, -, howns, -⟩ := hs.owner hx ht
    obtain ⟨j, -, howns', -⟩ := hs.owner hy hu
    obtain rfl : id = i := Option.some.inj (hid.symm.trans howns.buffer)
    obtain rfl : id = j := Option.some.inj (hid'.symm.trans howns'.buffer)
    exact hs.unique hx hy howns howns'
  · obtain ⟨id, k, howns, hhome, hkeeps⟩ := hs.owner hx ht
    obtain ⟨n, hn, -⟩ := howns.elements
    refine ⟨id, k, n, howns.buffer, hhome, howns.offset, howns.canonical, hn, fun c hc => ?_⟩
    refine ⟨(hkeeps c hc).validate howns, ?_, fun j c' hj hid => Option.some.inj ((hs.held hj hid).symm.trans hhome)⟩
    obtain ⟨b, hb, horigin, hdevice, hsize⟩ := hkeeps c hc
    refine ⟨b, hb, horigin, hdevice ▸ howns.device, ?_⟩
    unfold Tensor.nbytes Shape.byteSize at hsize
    rw [show t.shape.numel = .ok n from hn, Result.ok_bind] at hsize
    exact (Word.mul?_eq_some.1 (Result.ofWord?_eq_ok.1 hsize)).2
  · refine ⟨fun k hk => ?_, fun k c' hc' hid => ?_⟩
    · rw [homes_of_lt (hs.named hk).1, hk]
    · rcases contains_of_perform he hc' hid with hold | ⟨hle, -⟩
      · exact .inl hold
      · refine .inr ⟨?_, (hs.perform he).held hc' hid⟩
        -- only names below the next one have a home
        cases hhome : home id with
        | none => rfl
        | some j =>
          have := (hs.named hhome).1
          lia
  · obtain ⟨c, hc⟩ := context?_of_step hstep
    refine fun e he => isInternal_eq_false_of_step hc (hs.agrees hc) (fun ht hid => ?_) hstep he
    obtain ⟨k, hk⟩ := hs.bound ht hid
    exact (hs.named hk).1

/-! ### A tensor and a view of it in one of two contexts -/

/-- The tensor is made in the second context, and the first one is asked to release it. -/
def tensorAndView : List Event := [.build {}, .build {}, .command 1 (.alloc "a" [2, 3] .f32 .cpu),
  .command 1 (.view "v" "a" .transpose), .command 0 (.release "a")]

example : ((initial.performAll tensorAndView).bind (·.tensor? "a")).any (·.ownership) = true := by rfl

theorem tensorAndView_wellOwned : ∃ home s, initial.performAll tensorAndView = some s ∧ WellOwned home s := by
  obtain ⟨s, hs⟩ : ∃ s, initial.performAll tensorAndView = some s := Option.isSome_iff_exists.1 rfl
  obtain ⟨home, hrun⟩ := Run.initial.performAll hs
  exact ⟨home, s, hs, hrun.wellOwned⟩

end Session

end StridedTensor
