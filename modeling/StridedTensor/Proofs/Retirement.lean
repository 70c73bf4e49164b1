import StridedTensor.Proofs.Creation
import StridedTensor.Proofs.Lending
import StridedTensor.Proofs.Stale

/-!
# Retired buffers

Once a buffer has been released or detached or its context has been dropped (`Session.Ends`), no context holds it ever
again (`Session.Retired`), and none lets anything through that is still asked of it (`Session.Run.denied_of_ends`).
Arithmetic on shapes that leaves 64 bits may stop a copy or a call before it is rejected (`Session.halts_of_vast`).
-/

namespace StridedTensor

/-! ### Copies of stale tensors -/

namespace Workspace

variable {w : Workspace} {t : Tensor} {id : BufferId} {n size : Nat} {l : Layout}

/-- Without elements there is nothing to allocate. -/
private theorem allocShape_of_empty {shape : Shape} {type : ElementType} {device : Device} (hn : shape.numel = .ok 0)
    (hd : device.isAvailable = true) : w.allocShape shape type device = (Tensor.borrowed none shape type device, w) := by
  unfold allocShape
  rw [hd, hn]
  rfl

/-- With elements the outcome is that of the allocator. -/
private theorem allocShape_of_pos {shape : Shape} {type : ElementType} {device : Device} (hn : shape.numel = .ok n)
    (h0 : 0 < n) (hsize : shape.byteSize type = .ok size) (hl : Layout.canonical shape type = .ok l) :
    (∃ e r, w.allocShape shape type device = (Result.reject e, ⟨w.context, r⟩) ∧
        r.callerMemory = w.resources.callerMemory) ∨
      ∃ b r, w.allocShape shape type device =
          (.ok ⟨some w.resources.nextBuffer, 0, type, device, l, true⟩,
            ⟨{ w.context with arena := w.context.arena.insert w.resources.nextBuffer b }, r⟩) ∧
        b.origin = .owned w.context.allocator ∧ r.callerMemory = w.resources.callerMemory := by
  unfold allocShape
  split
  · exact .inl ⟨_, w.resources, rfl, rfl⟩
  · rw [hn]
    obtain ⟨m, rfl⟩ : ∃ m, n = m + 1 := ⟨n - 1, by omega⟩
    simp only [hsize]
    split
    · rename_i e r halloc
      refine .inl ⟨_, r, rfl, ?_⟩
      rcases Buffer.allocate_eq_error halloc with rfl | ⟨-, rfl⟩ <;> rfl
    · rename_i b r halloc
      obtain ⟨_, -, -, -, rfl, rfl⟩ := Buffer.allocate_eq_ok halloc
      unfold Tensor.owned
      rw [hl]
      exact .inr ⟨_, _, rfl, rfl, rfl⟩

section Stale

variable (hid : t.buffer = some id) (hget : w.context.arena.get? id = none) (hfits : t.Fits)
include hid hget hfits

/-- Without elements the new tensor has no buffer to be given back. -/
private theorem contiguous_of_empty (hn : t.numel = .ok 0) : (∃ e, w.contiguous t = (Result.reject e, w)) ∨
    Layout.canonical t.shape t.type = Result.halt .overflow ∧ w.contiguous t = (Result.halt .overflow, w) := by
  unfold contiguous duplicate
  cases hd : t.device.isAvailable with
  | false =>
    refine .inl ⟨.alloc (.device t.device), ?_⟩
    unfold allocShape
    rw [hd]
    rfl
  | true =>
    rw [allocShape_of_empty (show t.shape.numel = .ok 0 from hn) hd]
    unfold Tensor.borrowed
    cases hl : Layout.canonical t.shape t.type with
    | ok l =>
      obtain ⟨e, he⟩ := Context.Stale.copy_from ⟨id, hid, hget⟩ hfits ⟨none, 0, t.type, t.device, l, false⟩
      refine .inl ⟨e, ?_⟩
      simp only [Result.ok_bind, pure, Except.pure, he]
      rfl
    | error e =>
      obtain rfl : e = .fault .overflow := Layout.error_of_canonical hl
      exact .inr ⟨rfl, rfl⟩

/-- The buffer of the new tensor is taken out again, and its name is not that of the retired one. -/
private theorem contiguous_of_pos (hold : id < w.resources.nextBuffer)
    (hfree : w.context.arena.get? w.resources.nextBuffer = none) (hn : t.numel = .ok n) (h0 : 0 < n) :
    ∃ e r, w.contiguous t = (Result.reject e, ⟨w.context, r⟩) ∧ r.callerMemory = w.resources.callerMemory := by
  obtain ⟨size, hsize⟩ := hfits.nbytes
  obtain ⟨-, l, hl⟩ := Shape.canonical_of_byteSize hn h0 hsize
  unfold contiguous duplicate
  rcases allocShape_of_pos (show t.shape.numel = .ok n from hn) h0 hsize hl with
    ⟨e, r, halloc, hmemory⟩ | ⟨b, r, halloc, howned, hmemory⟩
  · rw [halloc]
    exact ⟨e, r, rfl, hmemory⟩
  · have hstale : Context.Stale { w.context with arena := w.context.arena.insert w.resources.nextBuffer b } t :=
      ⟨id, hid, by rw [Table.get?_insert, if_neg (by lia), hget]⟩
    obtain ⟨e, he⟩ := hstale.copy_from hfits ⟨some w.resources.nextBuffer, 0, t.type, t.device, l, true⟩
    have hnew : (w.context.arena.insert w.resources.nextBuffer b).get? w.resources.nextBuffer = some b := by
      rw [Table.get?_insert, if_pos rfl]
    refine ⟨e, b.dispose r, ?_, (Buffer.callerMemory_dispose_of_owned howned r).trans hmemory⟩
    simp only [halloc, he, Result.reject, release, Option.any_some, Table.contains, hnew, Option.isSome_some,
      Bool.not_true, Bool.and_false, Bool.false_eq_true, if_false, Tensor.disown, if_true, dispose, Arena.dispose,
      Table.erase_insert hfree]

/-- A copy of a stale tensor gets as far as the new tensor, which is given back, so the context is what it was. It
stops beforehand if the new tensor cannot be described: without elements its strides may be too large. -/
theorem contiguous_of_stale (hold : id < w.resources.nextBuffer)
    (hfree : w.context.arena.get? w.resources.nextBuffer = none) :
    (∃ e r, w.contiguous t = (Result.reject e, ⟨w.context, r⟩) ∧ r.callerMemory = w.resources.callerMemory) ∨
      t.numel = .ok 0 ∧ Layout.canonical t.shape t.type = Result.halt .overflow ∧
        w.contiguous t = (Result.halt .overflow, w) := by
  obtain ⟨n, hn⟩ := hfits.numel
  rcases Nat.eq_zero_or_pos n with rfl | h0
  · rcases contiguous_of_empty hid hget hfits hn with ⟨e, he⟩ | ⟨hl, hhalt⟩
    · exact .inl ⟨e, w.resources, he, rfl⟩
    · exact .inr ⟨hn, hl, hhalt⟩
  · exact .inl (contiguous_of_pos hid hget hfits hold hfree hn h0)

end Stale

end Workspace

/-! ### Sessions -/

namespace Session

open Workspace

variable {s s' s₁ s₂ : Session} {k : Nat} {c : Context} {id : BufferId} {home : BufferId → Option Nat}

/-- The command, if carried out in the context `c`, ends the life of the buffer `id`, which `c` holds. -/
inductive Ends (s : Session) (c : Context) (id : BufferId) : Command → Prop
  | release {x : Handle} {t : Tensor} (bound : s.tensor? x = some t) (owner : t.ownership = true)
      (buffer : t.buffer = some id) : Ends s c id (.release x)
  | detach {x : Handle} {t : Tensor} {b : Buffer} (bound : s.tensor? x = some t) (buffer : t.buffer = some id)
      (held : c.arena.get? id = some b) (lent : b.isOwned = false) : Ends s c id (.detach x)
  | drop : Ends s c id .drop

/-- There has been the buffer, and no context holds it. -/
structure Retired (s : Session) (id : BufferId) : Prop where
  made : id < s.resources.nextBuffer
  gone : ∀ {k c}, s.context? k = some c → c.arena.get? id = none

theorem Retired.perform (h : s.Retired id) {e : Event} (hstep : s.perform e = some s') : s'.Retired id where
  made := Nat.lt_of_lt_of_le h.made (nextBuffer_le_of_perform hstep)
  gone {k c} hc := by
    refine Table.get?_eq_none.2 fun hid => ?_
    rcases contains_of_perform hstep hc hid with ⟨c₀, hc₀, hold⟩ | ⟨hle, -⟩
    · simp [Table.contains, h.gone hc₀] at hold
    · exact absurd h.made (by lia)

theorem Retired.performAll (h : s.Retired id) {events : List Event} (hs : s.performAll events = some s') :
    s'.Retired id := by
  induction events generalizing s with
  | nil =>
    obtain rfl := Option.some.inj hs
    exact h
  | cons e events ih =>
    obtain ⟨s₁, hstep, hs⟩ := Option.bind_eq_some_iff.1 hs
    exact ih (h.perform hstep) hs

/-- No other context holds a buffer that `c` holds. -/
theorem Coherent.gone_elsewhere (h : Coherent home s) (hc : s.context? k = some c)
    (hid : c.arena.contains id = true) {j : Nat} {c' : Context} (hj : s.context? j = some c') (hjk : j ≠ k) :
    c'.arena.get? id = none :=
  Table.get?_eq_none.2 fun hid' => hjk (Option.some.inj ((h.held hj hid').symm.trans (h.held hc hid)))

private theorem Coherent.retired_dispose (h : Coherent home s) (hc : s.context? k = some c)
    (hid : c.arena.contains id = true) : (s.setWorkspace k (Workspace.dispose ⟨c, s.resources⟩ id)).Retired id where
  made := by
    rw [resources_setWorkspace, nextBuffer_dispose]
    exact (h.named (h.held hc hid)).1
  gone {j c'} hj := by
    rw [context?_setWorkspace hc] at hj
    split at hj
    · obtain rfl := Option.some.inj hj
      rw [get?_dispose, if_pos rfl]
    · rename_i hjk
      exact h.gone_elsewhere hc hid hj hjk

private theorem Coherent.retired_drop (h : Coherent home s) (hc : s.context? k = some c)
    (hid : c.arena.contains id = true) :
    Retired { s with contexts := s.contexts.set k none, resources := Workspace.drop ⟨c, s.resources⟩ } id where
  made := by
    show id < (c.arena.disposeAll s.resources).nextBuffer
    rw [Arena.nextBuffer_disposeAll]
    exact (h.named (h.held hc hid)).1
  gone {j c'} hj := by
    rw [context?_set_none] at hj
    split at hj
    · simp at hj
    · rename_i hjk
      exact h.gone_elsewhere hc hid hj hjk

theorem perform_detach (hc : s.context? k = some c) {x : Handle} {t : Tensor} {b : Buffer}
    (bound : s.tensor? x = some t) (buffer : t.buffer = some id) (held : c.arena.get? id = some b)
    (lent : b.isOwned = false) :
    s.perform (.command k (.detach x)) = some (s.setWorkspace k (Workspace.dispose ⟨c, s.resources⟩ id)) := by
  unfold Session.perform step
  simp only [hc, bound, Option.bind_eq_bind, Option.bind_some, Option.pure_def, Option.map_some]
  unfold Workspace.detach
  simp only [buffer, held, lent, Bool.false_eq_true, if_false]

theorem Ends.retired {command : Command} (hends : s.Ends c id command) (h : Coherent home s) (hc : s.context? k = some c)
    (hid : c.arena.contains id = true) (hstep : s.perform (.command k command) = some s₁) : s₁.Retired id := by
  cases hends with
  | @release x t bound owner buffer =>
    unfold Session.perform step at hstep
    simp only [hc, bound, Option.bind_eq_bind, Option.bind_some, Option.pure_def, Option.map_some] at hstep
    unfold Workspace.release Tensor.disown at hstep
    simp only [buffer, owner, hid, Option.any_some, Bool.true_and, Bool.not_true, Bool.false_eq_true, if_false,
      if_true] at hstep
    obtain rfl := Option.some.inj hstep
    have hretired := h.retired_dispose hc hid
    exact ⟨hretired.made, hretired.gone⟩
  | @detach x t b bound buffer held lent =>
    rw [perform_detach hc bound buffer held lent] at hstep
    obtain rfl := Option.some.inj hstep
    exact h.retired_dispose hc hid
  | drop =>
    unfold Session.perform step at hstep
    simp only [hc, Option.bind_eq_bind, Option.bind_some, Option.pure_def, Option.map_some] at hstep
    obtain rfl := Option.some.inj hstep
    exact h.retired_drop hc hid

/-- What is left of a buffer whose life has ended: tensors that refer to it, but nothing that can be done with them. -/
structure Denied (s : Session) (id : BufferId) : Prop where
  live : ∀ {k c t}, s.context? k = some c → t.buffer = some id → c.isLive t = false
  denies : ∀ {k c t}, s.context? k = some c → t.buffer = some id → t.Fits → c.Denies t
  /-- A copy is rejected too, unless there are no elements and the strides of the copy do not fit. The context is what
  it was, and so are the bytes that callers have. -/
  contiguous : ∀ {k c t}, s.context? k = some c → t.buffer = some id → t.Fits →
    (∃ e r, Workspace.contiguous ⟨c, s.resources⟩ t = (Result.reject e, ⟨c, r⟩) ∧
        r.callerMemory = s.resources.callerMemory) ∨
      t.numel = .ok 0 ∧ Layout.canonical t.shape t.type = Result.halt .overflow ∧
        Workspace.contiguous ⟨c, s.resources⟩ t = (Result.halt .overflow, ⟨c, s.resources⟩)

theorem Retired.denied (h : s.Retired id) (hs : Coherent home s) : s.Denied id where
  live hc hid := Context.Stale.isLive_eq_false ⟨id, hid, h.gone hc⟩
  denies hc hid hfits := Context.Stale.denies ⟨id, hid, h.gone hc⟩ hfits
  contiguous {k c t} hc hid hfits := by
    refine contiguous_of_stale (w := ⟨c, s.resources⟩) hid (h.gone hc) hfits h.made ?_
    -- the next name has not been given yet
    exact Table.get?_eq_none.2 fun hnext => Nat.lt_irrefl _ (hs.named (hs.held hc hnext)).1

/-- Once a buffer has been released or detached or its context has been dropped, nothing that happens later brings it
back, and the memory of a detached one keeps its bytes. -/
theorem Run.denied_of_ends (h : Run home s) {command : Command} (hc : s.context? k = some c)
    (hid : c.arena.contains id = true) (hends : s.Ends c id command)
    (hstep : s.perform (.command k command) = some s₁) {events : List Event}
    (hevents : s₁.performAll events = some s₂) :
    s₂.Denied id ∧ ∀ x b m, command = .detach x → c.arena.get? id = some b → b.origin = .foreign m →
      s₂.resources.callerMemory[m]? = some b.contents := by
  have hrun := h.perform hstep
  obtain ⟨home', hrun'⟩ := hrun.performAll hevents
  refine ⟨((hends.retired h.coherent hc hid hstep).performAll hevents).denied hrun'.coherent, ?_⟩
  rintro x b m rfl hb horigin
  cases hends with
  | @detach _ t b' bound buffer held lent =>
    rw [perform_detach hc bound buffer held lent] at hstep
    obtain rfl := Option.some.inj hstep
    obtain ⟨hseparate, hbytes⟩ := h.separate_of_detach hc hb horigin
    exact ((hrun.exchanges_performAll hevents).callerMemory_eq hseparate List.mem_cons_self).trans hbytes

/-! ### Memory that is lent and taken back -/

/-- The client lends memory to the first context, which writes half of it through a view. -/
def lendAndFill : List Event := [.build {}, .build { strict := false },
  .command 0 (.wrap "w" 65536 (Array.replicate 8 0) [2] .f32 .cpu), .command 0 (.view "v" "w" (.slice 0 1 2)),
  .command 0 (.fill "v" ⟨.f32, 0x3f800000#32⟩)]

/-- What the client does once it has the memory back: the name goes to a new tensor, and the old view is used in both
contexts. -/
def afterDetach : List Event := [.command 0 (.alloc "w" [2] .f32 .cpu),
  .command 0 (.fill "w" ⟨.f32, 0x40000000#32⟩), .command 0 (.fill "v" ⟨.f32, 0x40000000#32⟩),
  .command 1 (.kernel (.unary .neg "v" "v"))]

theorem lendAndFill_denied : ∃ s c b s₁ s₂, initial.performAll lendAndFill = some s ∧ s.context? 0 = some c ∧
    c.arena.get? 0 = some b ∧ s.perform (.command 0 (.detach "w")) = some s₁ ∧ s₁.performAll afterDetach = some s₂ ∧
    s₂.Denied 0 ∧ s₂.resources.callerMemory[0]? = some b.contents := by
  obtain ⟨s, hs⟩ : ∃ s, initial.performAll lendAndFill = some s := Option.isSome_iff_exists.1 rfl
  have hcontext : ((initial.performAll lendAndFill).bind (·.context? 0)).isSome = true := rfl
  have hbuffer : (((initial.performAll lendAndFill).bind (·.context? 0)).bind (·.arena.get? 0)).map (·.origin) =
      some (.foreign 0) := rfl
  have htensor : ((initial.performAll lendAndFill).bind (·.tensor? "w")).map (·.buffer) = some (some 0) := rfl
  have hdetach : ((initial.performAll lendAndFill).bind (·.perform (.command 0 (.detach "w")))).isSome = true := rfl
  have hafter : (((initial.performAll lendAndFill).bind (·.perform (.command 0 (.detach "w")))).bind
      (·.performAll afterDetach)).isSome = true := rfl
  simp only [hs, Option.bind_some] at hcontext hbuffer htensor hdetach hafter
  obtain ⟨c, hc⟩ := Option.isSome_iff_exists.1 hcontext
  obtain ⟨s₁, hs₁⟩ := Option.isSome_iff_exists.1 hdetach
  simp only [hc, hs₁, Option.bind_some] at hbuffer hafter
  obtain ⟨s₂, hs₂⟩ := Option.isSome_iff_exists.1 hafter
  obtain ⟨b, hb, horigin⟩ := Option.map_eq_some_iff.1 hbuffer
  obtain ⟨t, ht, hid⟩ := Option.map_eq_some_iff.1 htensor
  have hlent : b.isOwned = false := by
    unfold Buffer.isOwned
    rw [horigin]
  obtain ⟨home, hrun⟩ := Run.initial.performAll hs
  have hdenied := hrun.denied_of_ends hc (by simp [Table.contains, hb]) (.detach ht hid hb hlent) hs₁ hs₂
  exact ⟨s, c, b, s₁, s₂, hs, hc, hb, hs₁, hs₂, hdenied.1, hdenied.2 "w" b 0 rfl hb horigin⟩

/-! ### Numbers that do not fit -/

/-- A released tensor has a view without elements, the strides of whose copy would not fit. -/
def vastCopy : List Event := [.build {}, .command 0 (.alloc "t" [2] .f32 .cpu),
  .command 0 (.view "v" "t" (.asStrided [0, 2 ^ 40, 2 ^ 40] [0, 0, 0] 0)), .command 0 (.release "t")]

/-- A view of a released tensor and one of another tensor could be multiplied, but for the latter, the elements of which
cannot be counted. -/
def vastOperand : List Event := [.build {}, .command 0 (.alloc "t" [2] .f32 .cpu),
  .command 0 (.view "v" "t" (.asStrided [1, 2 ^ 40] [2 ^ 42, 4] 0)), .command 0 (.alloc "a" [2] .f32 .cpu),
  .command 0 (.view "y" "a" (.asStrided [2 ^ 40, 2 ^ 40] [2 ^ 42, 4] 0)),
  .command 0 (.view "o" "a" (.asStrided [1, 2 ^ 40] [2 ^ 42, 4] 0)), .command 0 (.release "t")]

/-- What there is to know of the tensor under a handle that is stale, although its numbers fit. -/
private theorem exists_stale {x : Handle} {n size : Nat} {span : Span}
    (hcontext : (s.context? 0).map (·.arena.get? id) = some none)
    (htensor : (s.tensor? x).map (fun t => (t.buffer, t.numel, t.nbytes, t.span)) =
      some (some id, .ok n, .ok size, .ok span)) :
    ∃ c t, s.context? 0 = some c ∧ s.tensor? x = some t ∧ c.Stale t ∧ t.Fits := by
  obtain ⟨c, hc, hgone⟩ := Option.map_eq_some_iff.1 hcontext
  obtain ⟨t, ht, hnumbers⟩ := Option.map_eq_some_iff.1 htensor
  simp only [Prod.mk.injEq] at hnumbers
  obtain ⟨hid, hnumel, hnbytes, hspan⟩ := hnumbers
  exact ⟨c, t, hc, ht, ⟨id, hid, hgone⟩, ⟨⟨n, hnumel⟩, ⟨size, hnbytes⟩, ⟨span, hspan⟩⟩⟩

/-- Not everything that is asked of a stale tensor is answered by an error: to copy one and to call a kernel on one may
stop, although the numbers of the tensor fit. -/
theorem halts_of_vast :
    (∃ s c t, initial.performAll vastCopy = some s ∧ s.context? 0 = some c ∧ s.tensor? "v" = some t ∧ c.Stale t ∧
      t.Fits ∧ (contiguous ⟨c, s.resources⟩ t).1 = Result.halt .overflow) ∧
    ∃ s c t call, initial.performAll vastOperand = some s ∧ s.context? 0 = some c ∧ s.tensor? "v" = some t ∧
      KernelCall.operands? s.tensor? (.matmul "v" "y" "o") = some call ∧ c.Stale t ∧ t.Fits ∧
      t ∈ call.toList ∧ call.output.numel = .ok (2 ^ 40) ∧ (c.launch call).1 = Result.halt .overflow := by
  constructor
  · obtain ⟨s, hs⟩ : ∃ s, initial.performAll vastCopy = some s := Option.isSome_iff_exists.1 rfl
    have hcontext : ((initial.performAll vastCopy).bind (·.context? 0)).map (·.arena.get? 0) = some none := rfl
    have htensor : ((initial.performAll vastCopy).bind (·.tensor? "v")).map (fun t =>
        (t.buffer, t.numel, t.nbytes, t.span)) = some (some 0, .ok 0, .ok 0, .ok ⟨0, 0⟩) := rfl
    have hcopy : (initial.performAll vastCopy).bind (fun s => (s.context? 0).bind fun c => (s.tensor? "v").map fun t =>
        (contiguous ⟨c, s.resources⟩ t).1) = some (Result.halt .overflow) := rfl
    simp only [hs, Option.bind_some] at hcontext htensor hcopy
    obtain ⟨c, t, hc, ht, hstale, hfits⟩ := exists_stale hcontext htensor
    simp only [hc, ht, Option.bind_some, Option.map_some, Option.some.injEq] at hcopy
    exact ⟨s, c, t, hs, hc, ht, hstale, hfits, hcopy⟩
  · obtain ⟨s, hs⟩ : ∃ s, initial.performAll vastOperand = some s := Option.isSome_iff_exists.1 rfl
    have hcontext : ((initial.performAll vastOperand).bind (·.context? 0)).map (·.arena.get? 0) = some none := rfl
    have htensor : ((initial.performAll vastOperand).bind (·.tensor? "v")).map (fun t =>
        (t.buffer, t.numel, t.nbytes, t.span)) = some (some 0, .ok (2 ^ 40), .ok (2 ^ 42), .ok ⟨0, 2 ^ 42⟩) := rfl
    have hother : ((initial.performAll vastOperand).bind (·.tensor? "y")).isSome = true := rfl
    have houtput : ((initial.performAll vastOperand).bind (·.tensor? "o")).map (·.numel) = some (.ok (2 ^ 40)) := rfl
    have hcall : (initial.performAll vastOperand).bind (fun s => (s.context? 0).bind fun c => (s.tensor? "v").bind
        fun t => (s.tensor? "y").bind fun y => (s.tensor? "o").map fun o => (c.launch (.matmul t y o)).1) =
          some (Result.halt .overflow) := rfl
    simp only [hs, Option.bind_some] at hcontext htensor hother houtput hcall
    obtain ⟨c, t, hc, ht, hstale, hfits⟩ := exists_stale hcontext htensor
    obtain ⟨y, hy⟩ := Option.isSome_iff_exists.1 hother
    obtain ⟨o, ho, hn⟩ := Option.map_eq_some_iff.1 houtput
    simp only [hc, ht, hy, ho, Option.bind_some, Option.map_some, Option.some.injEq] at hcall
    refine ⟨s, c, t, .matmul t y o, hs, hc, ht, ?_, hstale, hfits, ?_, hn, hcall⟩
    · simp [KernelCall.operands?, ht, hy, ho]
    · simp [KernelCall.toList]

end Session

end StridedTensor
