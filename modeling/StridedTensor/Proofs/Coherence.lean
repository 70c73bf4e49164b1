import StridedTensor.Proofs.Outcome
import StridedTensor.Proofs.Rejection

/-!
# Coherent sessions

What ties the tensors of a client to the buffers of several contexts (`Session.Coherent`): names of buffers are not
used twice, a buffer is where it was made, a tensor owns at most one buffer that no other tensor owns, and that buffer
is held as long as its context lives. Every event preserves this, so it holds of every run (`Session.Run.coherent`).
-/

namespace StridedTensor

/-! ### Owners -/

section Owners

variable {c : Context} {t : Tensor} {id : BufferId}

private theorem Tensor.Owns.zeroStride?_eq_none (h : t.Owns id) : t.zeroStride? = none := by
  obtain ⟨n, hn, h0⟩ := h.elements
  rw [Tensor.numel_eq hn] at h0
  obtain ⟨hstrides, -⟩ := Layout.canonical_of_pos h.canonical h0
  unfold zeroStride?
  rw [List.findIdx?_eq_none_iff]
  rintro ⟨extent, stride⟩ ha
  have hpos : 0 < stride := hstrides _ ha
  simp only [Bool.and_eq_false_iff, beq_eq_false_iff_ne]
  exact .inr (by omega)

theorem Context.Keeps.agrees (h : c.Keeps t id) (howns : t.Owns id) : c.Agrees t := by
  obtain ⟨b, hb, -, hdevice, -⟩ := h
  refine ⟨fun _ => howns.zeroStride?_eq_none, fun {j b'} hid hb' => ?_⟩
  obtain rfl : id = j := Option.some.inj (howns.buffer.symm.trans hid)
  obtain rfl : b = b' := Option.some.inj (hb.symm.trans hb')
  exact hdevice

/-- The elements of an owner fill its buffer. -/
theorem Context.Keeps.validate (h : c.Keeps t id) (howns : t.Owns id) : c.validate t = .ok () := by
  obtain ⟨b, hb, -, hdevice, hsize⟩ := h
  obtain ⟨n, hn, h0⟩ := howns.elements
  have hprod := Tensor.numel_eq hn
  obtain ⟨-, hlast⟩ := Layout.canonical_of_pos howns.canonical (by rw [← hprod]; exact h0)
  rw [← hprod] at hlast
  have hbytes : n * t.type.size < Word.limit ∧ b.size = n * t.type.size := by
    unfold Tensor.nbytes Shape.byteSize at hsize
    rw [show t.shape.numel = .ok n from hn, Result.ok_bind] at hsize
    exact Word.mul?_eq_some.1 (Result.ofWord?_eq_ok.1 hsize)
  have hend : t.offset + Layout.lastDistance t.layout.axes + t.type.size = b.size := by
    rw [howns.offset, Nat.zero_add, hlast, hbytes.2, Nat.mul_comm]
  have hspan := (Tensor.span_eq_ok_of_pos (s := ⟨t.offset, b.size⟩) hn h0).2
    ⟨by rw [hend, hbytes.2]; exact hbytes.1, by rw [hend]⟩
  refine Context.validate_iff.2 ⟨Tensor.validate_eq_ok.2 ⟨howns.device, ?_, ?_, _, hspan⟩, fun j hid => ?_⟩
  · intro hnone
    simp [howns.buffer] at hnone
  · exact fun _ => howns.zeroStride?_eq_none
  · obtain rfl : id = j := Option.some.inj (howns.buffer.symm.trans hid)
    exact ⟨b, _, hb, hdevice, hspan, Nat.le_refl _⟩

theorem Context.Keeps.contains (h : c.Keeps t id) : c.arena.contains id = true := by
  obtain ⟨b, hb, -⟩ := h
  exact Table.contains_eq_true.2 ⟨b, hb⟩

end Owners

namespace Session

open Workspace

variable {s s' : Session} {k j : Nat} {c c' : Context} {home : BufferId → Option Nat}

/-! ### Contexts after a change -/

@[simp] theorem resources_setWorkspace (s : Session) (k : Nat) (w : Workspace) :
    (s.setWorkspace k w).resources = w.resources := rfl

theorem context?_setWorkspace (hc : s.context? k = some c) (w : Workspace) (j : Nat) :
    (s.setWorkspace k w).context? j = if j = k then some w.context else s.context? j := by
  obtain ⟨hk, -⟩ := List.getElem?_eq_some_iff.1 (getElem?_of_context? hc)
  unfold context? setWorkspace
  rw [List.getElem?_set]
  by_cases h : j = k
  · subst h
    simp [hk]
  · rw [if_neg fun e => h e.symm, if_neg h]

theorem context?_set_none (s : Session) (k j : Nat) (r : Resources) :
    ({ s with contexts := s.contexts.set k none, resources := r } : Session).context? j =
      if j = k then none else s.context? j := by
  unfold context?
  rw [List.getElem?_set]
  by_cases h : j = k
  · subst h
    by_cases hk : j < s.contexts.length <;> simp [hk]
  · rw [if_neg fun e => h e.symm, if_neg h]

theorem context?_build (s : Session) (options : ContextOptions) (j : Nat) :
    (s.build options).context? j =
      if j = s.contexts.length then some (Context.build options s.resources) else s.context? j := by
  unfold context? build
  rw [List.getElem?_append]
  by_cases hlt : j < s.contexts.length
  · rw [if_pos hlt, if_neg (by omega)]
  · rw [if_neg hlt]
    by_cases h : j = s.contexts.length
    · subst h
      simp
    · rw [if_neg h, List.getElem?_eq_none (by simp; omega), List.getElem?_eq_none (by omega)]

private theorem homes_command (home : BufferId → Option Nat) (s s' : Session) (k : Nat) (command : Command)
    (id : BufferId) :
    homes home s s' (.command k command) id =
      if s.resources.nextBuffer ≤ id ∧ id < s'.resources.nextBuffer then some k else home id := rfl

theorem homes_of_lt {id : BufferId} (h : id < s.resources.nextBuffer) {e : Event} : homes home s s' e id = home id := by
  cases e with
  | command k command => rw [homes_command, if_neg (by lia)]
  | register name provider tracked => rfl
  | setDefault id => rfl
  | build options => rfl

private theorem homes_of_next_eq (home : BufferId → Option Nat) {s s' : Session}
    (hnext : s'.resources.nextBuffer = s.resources.nextBuffer) (e : Event) : homes home s s' e = home := by
  funext id
  cases e with
  | command k command => rw [homes_command, if_neg (by rw [hnext]; lia)]
  | register name provider tracked => rfl
  | setDefault id => rfl
  | build options => rfl

theorem lt_of_context? (hc : s.context? k = some c) : k < s.contexts.length :=
  (List.getElem?_eq_some_iff.1 (getElem?_of_context? hc)).1

theorem context?_of_step {command : Command} {o : Result Reply × Session} (h : s.step k command = some o) :
    ∃ c, s.context? k = some c := by
  obtain ⟨c, hc, -⟩ := Option.bind_eq_some_iff.1 h
  exact ⟨c, hc⟩

/-! ### Names -/

private theorem Outcome.nextBuffer_le (h : Outcome s k c s') : s.resources.nextBuffer ≤ s'.resources.nextBuffer := by
  cases h with
  | act effects | yield effects yields => exact effects.grows.next_le
  | read | keep | derive => exact Nat.le_refl _
  | @release _ _ id | @detach id _ => exact (nextBuffer_dispose ⟨c, s.resources⟩ id).ge
  | drop => exact (Arena.nextBuffer_disposeAll _ _).ge

/-- A context holds what it held before, or new names. -/
private theorem Outcome.contains (hc : s.context? k = some c) (h : Outcome s k c s') (hj : s'.context? j = some c')
    {id : BufferId} (hid : c'.arena.contains id = true) :
    (∃ c₀, s.context? j = some c₀ ∧ c₀.arena.contains id = true) ∨
      s.resources.nextBuffer ≤ id ∧ id < s'.resources.nextBuffer := by
  have hgrows : ∀ {n w}, Grows n ⟨c, s.resources⟩ w → (s.setWorkspace k w).context? j = some c' →
      (∃ c₀, s.context? j = some c₀ ∧ c₀.arena.contains id = true) ∨
        s.resources.nextBuffer ≤ id ∧ id < w.resources.nextBuffer := by
    intro n w hw hj
    rw [context?_setWorkspace hc] at hj
    split at hj
    · rename_i hjk
      obtain rfl := Option.some.inj hj
      rcases hw.fresh hid with hcontains | hnew
      · exact .inl ⟨c, hjk ▸ hc, hcontains⟩
      · exact .inr hnew
    · exact .inl ⟨c', hj, hid⟩
  cases h with
  | read | keep | derive => exact .inl ⟨c', hj, hid⟩
  | act effects | yield effects yields => exact hgrows effects.grows hj
  | @release x t i | @detach i b => exact hgrows (grows_dispose (n := i) _ (Nat.le_refl i)) hj
  | drop =>
    rw [context?_set_none] at hj
    split at hj
    · simp at hj
    · exact .inl ⟨c', hj, hid⟩

/-- An event is a command, or it leaves the names and the contexts as they are, but that there may be a new context
without buffers. -/
theorem outcome_of_perform {e : Event} (h : s.perform e = some s') :
    (∃ k c, s.context? k = some c ∧ Outcome s k c s') ∨
      s'.resources.nextBuffer = s.resources.nextBuffer ∧ s.contexts.length ≤ s'.contexts.length ∧
        ∀ {j c'}, s'.context? j = some c' → s.context? j = some c' ∨ j = s.contexts.length ∧ c'.arena = .empty := by
  cases e with
  | register name provider tracked =>
    obtain rfl := Option.some.inj h
    exact .inr ⟨rfl, Nat.le_refl _, .inl⟩
  | setDefault id =>
    simp only [perform, Option.ite_none_right_eq_some, Option.some.injEq] at h
    obtain ⟨-, rfl⟩ := h
    exact .inr ⟨rfl, Nat.le_refl _, .inl⟩
  | build options =>
    simp only [perform, Option.ite_none_right_eq_some, Option.some.injEq] at h
    obtain ⟨-, rfl⟩ := h
    refine .inr ⟨rfl, ?_, fun {j c'} hj => ?_⟩
    · rw [build, List.length_append]
      exact Nat.le_add_right _ _
    · rw [context?_build] at hj
      split at hj
      · rename_i hnew
        obtain rfl := Option.some.inj hj
        exact .inr ⟨hnew, rfl⟩
      · exact .inl hj
  | command k command =>
    obtain ⟨⟨reply, s₁⟩, hrun, rfl⟩ := Option.map_eq_some_iff.1 h
    obtain ⟨c, hc⟩ := context?_of_step hrun
    exact .inl ⟨k, c, hc, step_outcome hc hrun⟩

theorem nextBuffer_le_of_perform {e : Event} (h : s.perform e = some s') :
    s.resources.nextBuffer ≤ s'.resources.nextBuffer := by
  rcases outcome_of_perform h with ⟨k, c, -, houtcome⟩ | ⟨hnext, -⟩
  · exact houtcome.nextBuffer_le
  · exact hnext.ge

theorem contains_of_perform {e : Event} (h : s.perform e = some s') (hj : s'.context? j = some c') {id : BufferId}
    (hid : c'.arena.contains id = true) :
    (∃ c₀, s.context? j = some c₀ ∧ c₀.arena.contains id = true) ∨
      s.resources.nextBuffer ≤ id ∧ id < s'.resources.nextBuffer := by
  rcases outcome_of_perform h with ⟨k, c, hc, houtcome⟩ | ⟨-, -, hcontexts⟩
  · exact houtcome.contains hc hj hid
  · rcases hcontexts hj with hj | ⟨-, hempty⟩
    · exact .inl ⟨c', hj, hid⟩
    · simp [hempty, Table.contains] at hid

/-- Further events lead from one run to another. -/
theorem Run.performAll (h : Run home s) {events : List Event} (hs : s.performAll events = some s') :
    ∃ home', Run home' s' := by
  induction events generalizing home s with
  | nil =>
    obtain rfl := Option.some.inj hs
    exact ⟨home, h⟩
  | cons e events ih =>
    obtain ⟨s₁, hstep, hs⟩ := Option.bind_eq_some_iff.1 hs
    exact ih (h.perform hstep) hs

/-! ### The invariant -/

/-- Tensors and buffers are in order; `home id` is the context in which the buffer `id` was made. -/
structure Coherent (home : BufferId → Option Nat) (s : Session) : Prop where
  /-- Only names that have been given have a home, and it is a context that has been built. -/
  named : ∀ {id k}, home id = some k → id < s.resources.nextBuffer ∧ k < s.contexts.length
  /-- A buffer that is held is held where it was made. -/
  held : ∀ {k c id}, s.context? k = some c → c.arena.contains id = true → home id = some k
  /-- Tensors refer to buffers that have been made. -/
  bound : ∀ {x t id}, s.tensor? x = some t → t.buffer = some id → ∃ k, home id = some k
  device : ∀ {x t id k c b}, s.tensor? x = some t → t.buffer = some id → s.context? k = some c →
    c.arena.get? id = some b → b.device = t.device
  /-- An owner has its buffer as long as the context lives in which it was made. -/
  owner : ∀ {x t}, s.tensor? x = some t → t.ownership = true →
    ∃ id k, t.Owns id ∧ home id = some k ∧ ∀ c, s.context? k = some c → c.Keeps t id
  unique : ∀ {x y t u id}, s.tensor? x = some t → s.tensor? y = some u → t.Owns id → u.Owns id → x = y

theorem coherent_initial : Coherent (fun _ => none) initial where
  named h := by simp at h
  held h := by simp [context?, initial] at h
  bound h := by simp [tensor?, initial] at h
  device h := by simp [tensor?, initial] at h
  owner h := by simp [tensor?, initial] at h
  unique h := by simp [tensor?, initial] at h

namespace Coherent

variable (h : Coherent home s)
include h

/-- An owner that is bound keeps its buffer in the context that holds it. -/
theorem keeps (hc : s.context? k = some c) {x : Handle} {t : Tensor} {id : BufferId} (ht : s.tensor? x = some t)
    (howns : t.Owns id) (hid : c.arena.contains id = true) : c.Keeps t id := by
  obtain ⟨id', k', howns', hhome, hkeeps⟩ := h.owner ht howns.ownership
  obtain rfl : id = id' := Option.some.inj (howns.buffer.symm.trans howns'.buffer)
  obtain rfl : k = k' := Option.some.inj ((h.held hc hid).symm.trans hhome)
  exact hkeeps c hc

theorem agrees (hc : s.context? k = some c) {x : Handle} {t : Tensor} (ht : s.tensor? x = some t) : c.Agrees t := by
  refine ⟨fun howner => ?_, fun hid hb => h.device ht hid hc hb⟩
  obtain ⟨id, k, howns, -⟩ := h.owner ht howner
  exact howns.zeroStride?_eq_none

/-! ### Binding a tensor -/

/-- A tensor may be bound if it is in order itself and does not own what another one owns. -/
private theorem bind {x : Handle} {t : Tensor} (hbound : ∀ id, t.buffer = some id → ∃ k, home id = some k)
    (hdevice : ∀ {id k c b}, t.buffer = some id → s.context? k = some c → c.arena.get? id = some b →
      b.device = t.device)
    (howner : t.ownership = true →
      ∃ id k, t.Owns id ∧ home id = some k ∧ ∀ c, s.context? k = some c → c.Keeps t id)
    (hunique : ∀ {y u id}, y ≠ x → s.tensor? y = some u → u.Owns id → ¬ t.Owns id) : Coherent home (s.bind x t) where
  named := h.named
  held := h.held
  bound {y u id} hy hid := by
    rw [tensor?_bind] at hy
    split at hy
    · obtain rfl := Option.some.inj hy
      exact hbound id hid
    · exact h.bound hy hid
  device {y u id k c b} hy hid hc hb := by
    rw [tensor?_bind] at hy
    split at hy
    · obtain rfl := Option.some.inj hy
      exact hdevice hid hc hb
    · exact h.device hy hid hc hb
  owner {y u} hy hu := by
    rw [tensor?_bind] at hy
    split at hy
    · obtain rfl := Option.some.inj hy
      exact howner hu
    · exact h.owner hy hu
  unique {y z u v id} hy hz hu hv := by
    rw [tensor?_bind] at hy hz
    split at hy <;> split at hz
    · rename_i hyx hzx
      rw [hyx, hzx]
    · rename_i hyx hzx
      obtain rfl := Option.some.inj hy
      exact absurd hu (hunique hzx hz hv)
    · rename_i hyx hzx
      obtain rfl := Option.some.inj hz
      exact absurd hv (hunique hyx hy hu)
    · exact h.unique hy hz hu hv

/-- A view of a bound tensor, or that tensor itself under its own name. -/
private theorem bind_view {x y : Handle} {t u : Tensor} (hu : s.tensor? y = some u) (hview : t.DerivesFrom u) :
    Coherent home (s.bind x t) :=
  h.bind (fun _ hid => h.bound hu (hview.buffer.symm.trans hid))
    (fun hid hc hb => by
      rw [hview.device]
      exact h.device hu (hview.buffer.symm.trans hid) hc hb)
    (fun howner => by simp [hview.view] at howner)
    fun _ _ _ howns => by
      have howner := howns.ownership
      simp [hview.view] at howner

/-! ### Changes in a context -/

/-- The tensors that are bound stay in order if no buffer that has been made changes its device, and none is lost that
is owned. -/
private theorem move {home' : BufferId → Option Nat} (htensors : s'.tensors = s.tensors)
    (hnamed : ∀ {id k}, home' id = some k → id < s'.resources.nextBuffer ∧ k < s'.contexts.length)
    (hhome : ∀ {id k}, home id = some k → home' id = some k)
    (hheld : ∀ {k c id}, s'.context? k = some c → c.arena.contains id = true → home' id = some k)
    (hdevice : ∀ {k c id b}, s'.context? k = some c → c.arena.get? id = some b → id < s.resources.nextBuffer →
      ∃ c₀ b₀, s.context? k = some c₀ ∧ c₀.arena.get? id = some b₀ ∧ b.device = b₀.device)
    (hkeeps : ∀ {x t id k c}, s.tensor? x = some t → t.Owns id → home id = some k → s'.context? k = some c →
      (∀ c₀, s.context? k = some c₀ → c₀.Keeps t id) → c.Keeps t id) : Coherent home' s' where
  named := hnamed
  held := hheld
  bound {x t id} ht hid := by
    unfold tensor? at ht
    rw [htensors] at ht
    obtain ⟨k, hk⟩ := h.bound ht hid
    exact ⟨k, hhome hk⟩
  device {x t id k c b} ht hid hc hb := by
    unfold tensor? at ht
    rw [htensors] at ht
    obtain ⟨j, hj⟩ := h.bound ht hid
    obtain ⟨c₀, b₀, hc₀, hb₀, hsame⟩ := hdevice hc hb (h.named hj).1
    rw [hsame]
    exact h.device ht hid hc₀ hb₀
  owner {x t} ht howner := by
    unfold tensor? at ht
    rw [htensors] at ht
    obtain ⟨id, k, howns, hk, hkept⟩ := h.owner ht howner
    exact ⟨id, k, howns, hhome hk, fun c hc => hkeeps ht howns hk hc hkept⟩
  unique {x y t u id} ht hu := by
    unfold tensor? at ht hu
    rw [htensors] at ht hu
    exact h.unique ht hu

/-- Effects in one context leave the tensors in order that are bound. -/
private theorem effects (hc : s.context? k = some c) {w : Workspace}
    (heffects : Effects s.resources.nextBuffer ⟨c, s.resources⟩ w) (command : Command) :
    Coherent (homes home s (s.setWorkspace k w) (.command k command)) (s.setWorkspace k w) := by
  have hgrows := heffects.grows
  have hnext : s.resources.nextBuffer ≤ w.resources.nextBuffer := hgrows.next_le
  have hlen : (s.setWorkspace k w).contexts.length = s.contexts.length := List.length_set
  -- what has been made before is still there but for its bytes
  have hold : ∀ {j c' id}, (s.setWorkspace k w).context? j = some c' → id < s.resources.nextBuffer →
      ∃ c₀, s.context? j = some c₀ ∧ c'.allocator = c₀.allocator ∧
        (c'.arena.get? id).map Buffer.blank = (c₀.arena.get? id).map Buffer.blank := by
    intro j c' id hj hid
    rw [context?_setWorkspace hc] at hj
    split at hj
    · rename_i hjk
      obtain rfl := Option.some.inj hj
      exact ⟨c, hjk ▸ hc, hgrows.allocator, hgrows.kept hid hid⟩
    · exact ⟨c', hj, rfl, rfl⟩
  refine h.move rfl ?_ ?_ ?_ ?_ ?_
  · intro id j hid
    rw [homes_command, resources_setWorkspace] at hid
    rw [resources_setWorkspace, hlen]
    split at hid
    · obtain rfl := Option.some.inj hid
      exact ⟨by lia, lt_of_context? hc⟩
    · obtain ⟨hlt, hj⟩ := h.named hid
      exact ⟨by lia, hj⟩
  · intro id j hid
    have := (h.named hid).1
    rw [homes_command, if_neg (by lia), hid]
  · intro j c' id hj hid
    rw [context?_setWorkspace hc] at hj
    rw [homes_command, resources_setWorkspace]
    split at hj
    · rename_i hjk
      obtain rfl := Option.some.inj hj
      rcases hgrows.fresh hid with hcontains | hnew
      · have hhome := h.held hc hcontains
        have := (h.named hhome).1
        rw [if_neg (by lia), hjk, hhome]
      · rw [if_pos hnew, hjk]
    · have hhome := h.held hj hid
      have := (h.named hhome).1
      rw [if_neg (by lia), hhome]
  · intro j c' id b hj hb hid
    obtain ⟨c₀, hc₀, -, hget⟩ := hold hj hid
    obtain ⟨b₀, hb₀, hsame⟩ := Context.get?_of_blank hget.symm hb
    exact ⟨c₀, b₀, hc₀, hb₀, (congrArg (·.device) hsame).symm⟩
  · intro x t id j c' ht howns hhome hj hkept
    obtain ⟨c₀, hc₀, hallocator, hget⟩ := hold hj (h.named hhome).1
    exact (hkept c₀ hc₀).of_blank hallocator hget

/-- A buffer may be given back that no tensor owns. -/
private theorem dispose (hc : s.context? k = some c) {id : BufferId}
    (hfree : ∀ {x t}, s.tensor? x = some t → ¬ t.Owns id) :
    Coherent home (s.setWorkspace k (Workspace.dispose ⟨c, s.resources⟩ id)) := by
  -- every other buffer stays
  have hold : ∀ {j c'}, (s.setWorkspace k (Workspace.dispose ⟨c, s.resources⟩ id)).context? j = some c' →
      ∃ c₀, s.context? j = some c₀ ∧ c'.allocator = c₀.allocator ∧
        ∀ i, c'.arena.get? i = if j = k ∧ i = id then none else c₀.arena.get? i := by
    intro j c' hj
    rw [context?_setWorkspace hc] at hj
    split at hj
    · rename_i hjk
      obtain rfl := Option.some.inj hj
      refine ⟨c, hjk ▸ hc, rfl, fun i => ?_⟩
      rw [get?_dispose]
      simp [hjk]
    · rename_i hjk
      exact ⟨c', hj, rfl, fun i => by simp [hjk]⟩
  refine h.move rfl ?_ (fun hid => hid) ?_ ?_ ?_
  · intro i j hi
    show i < (Workspace.dispose ⟨c, s.resources⟩ id).resources.nextBuffer ∧ j < (s.contexts.set k _).length
    rw [nextBuffer_dispose, List.length_set]
    exact h.named hi
  · intro j c' i hj hi
    obtain ⟨c₀, hc₀, -, hget⟩ := hold hj
    apply h.held hc₀
    unfold Table.contains at hi ⊢
    rw [hget] at hi
    split at hi
    · simp at hi
    · exact hi
  · intro j c' i b hj hb _
    obtain ⟨c₀, hc₀, -, hget⟩ := hold hj
    rw [hget] at hb
    split at hb
    · simp at hb
    · exact ⟨c₀, b, hc₀, hb, rfl⟩
  · intro x t i j c' ht howns _ hj hkept
    obtain ⟨c₀, hc₀, hallocator, hget⟩ := hold hj
    have hne : i ≠ id := fun hi => hfree ht (hi ▸ howns)
    refine (hkept c₀ hc₀).of_blank hallocator ?_
    rw [hget, if_neg fun hi => hne hi.2]

private theorem drop (k : Nat) (c : Context) :
    Coherent home { s with contexts := s.contexts.set k none, resources := Workspace.drop ⟨c, s.resources⟩ } := by
  have hnext : (Workspace.drop ⟨c, s.resources⟩).nextBuffer = s.resources.nextBuffer := Arena.nextBuffer_disposeAll _ _
  have hold : ∀ {j c'}, ({ s with contexts := s.contexts.set k none, resources := Workspace.drop ⟨c, s.resources⟩ } :
      Session).context? j = some c' → s.context? j = some c' := by
    intro j c' hj
    rw [context?_set_none] at hj
    split at hj
    · simp at hj
    · exact hj
  refine h.move rfl ?_ id ?_ ?_ ?_
  · intro id j hid
    rw [hnext, List.length_set]
    exact h.named hid
  · exact fun hj hid => h.held (hold hj) hid
  · exact fun hj hb _ => ⟨_, _, hold hj, hb, rfl⟩
  · exact fun _ _ _ hj hkept => hkept _ (hold hj)

/-! ### Commands and events -/

/-- A tensor may be bound that an operation has just made. -/
private theorem bind_yields (hc : s.context? k = some c) {w : Workspace}
    (heffects : Effects s.resources.nextBuffer ⟨c, s.resources⟩ w) (command : Command) {t : Tensor}
    (hyields : Yields ⟨c, s.resources⟩ w t) (x : Handle) :
    Coherent (homes home s (s.setWorkspace k w) (.command k command)) ((s.setWorkspace k w).bind x t) := by
  have h' := h.effects hc heffects command
  have hk : (s.setWorkspace k w).context? k = some w.context := by rw [context?_setWorkspace hc, if_pos rfl]
  -- a new buffer is in this context and in no other
  have hhere : ∀ {id j c'}, w.context.arena.contains id = true → (s.setWorkspace k w).context? j = some c' →
      c'.arena.contains id = true → c' = w.context := by
    intro id j c' hw hj hid
    have hj' := (h'.held hj hid).symm.trans (h'.held hk hw)
    obtain rfl := Option.some.inj hj'
    exact Option.some.inj (hj.symm.trans hk)
  cases hyields with
  | null view buffer =>
    refine h'.bind (fun id hid => ?_) (fun hid => ?_) (fun howner => ?_) fun _ _ _ howns => ?_
    · simp [buffer] at hid
    · simp [buffer] at hid
    · simp [view] at howner
    · exact Bool.false_ne_true (view.symm.trans howns.ownership)
  | @owner id new owns keeps =>
    refine h'.bind (fun i hi => ?_) (fun {i j c' b} hi hj hb => ?_) (fun _ => ?_) fun {y u i} _ hu howns howns' => ?_
    · obtain rfl : id = i := Option.some.inj (owns.buffer.symm.trans hi)
      exact ⟨k, h'.held hk keeps.contains⟩
    · obtain rfl : id = i := Option.some.inj (owns.buffer.symm.trans hi)
      obtain rfl := hhere keeps.contains hj (Table.contains_eq_true.2 ⟨b, hb⟩)
      exact (keeps.agrees owns).device hi hb
    · exact ⟨id, k, owns, h'.held hk keeps.contains, fun c' hc' => Option.some.inj (hk.symm.trans hc') ▸ keeps⟩
    · -- the name is new, so no tensor refers to it yet
      obtain rfl : id = i := Option.some.inj (owns.buffer.symm.trans howns'.buffer)
      obtain ⟨j, hj⟩ := h.bound (show s.tensor? y = some u from hu) howns.buffer
      have hlt := (h.named hj).1
      have hle : s.resources.nextBuffer ≤ id := new
      lia
  | @lent id b view buffer new held device =>
    have hcontains : w.context.arena.contains id = true := Table.contains_eq_true.2 ⟨b, held⟩
    refine h'.bind (fun i hi => ?_) (fun {i j c' b'} hi hj hb => ?_) (fun howner => ?_) fun _ _ _ howns => ?_
    · obtain rfl : id = i := Option.some.inj (buffer.symm.trans hi)
      exact ⟨k, h'.held hk hcontains⟩
    · obtain rfl : id = i := Option.some.inj (buffer.symm.trans hi)
      obtain rfl := hhere hcontains hj (Table.contains_eq_true.2 ⟨b', hb⟩)
      obtain rfl : b = b' := Option.some.inj (held.symm.trans hb)
      exact device
    · simp [view] at howner
    · exact Bool.false_ne_true (view.symm.trans howns.ownership)

/-- The owner of a buffer lets go of it, and the buffer is given back. -/
private theorem release (hc : s.context? k = some c) {x : Handle} {t : Tensor} {id : BufferId}
    (ht : s.tensor? x = some t) (howner : t.ownership = true) (hid : t.buffer = some id) :
    Coherent home ((s.setWorkspace k (Workspace.dispose ⟨c, s.resources⟩ id)).bind x
      { t with buffer := none, ownership := false }) := by
  have hbind : Coherent home (s.bind x { t with buffer := none, ownership := false }) :=
    h.bind (by simp) (by simp) (by simp) fun _ _ _ howns => Bool.false_ne_true howns.ownership
  have hc' : (s.bind x { t with buffer := none, ownership := false }).context? k = some c := hc
  refine hbind.dispose hc' fun {y u} hy howns => ?_
  rw [tensor?_bind] at hy
  split at hy
  · obtain rfl := Option.some.inj hy
    exact Bool.false_ne_true howns.ownership
  · rename_i hne
    obtain ⟨id', k', howns', -⟩ := h.owner ht howner
    obtain rfl : id = id' := Option.some.inj (hid.symm.trans howns'.buffer)
    exact hne (h.unique hy ht howns howns')

theorem outcome (hc : s.context? k = some c) (houtcome : Outcome s k c s') (command : Command) :
    Coherent (homes home s s' (.command k command)) s' := by
  cases houtcome with
  | read =>
    rw [homes_of_next_eq home rfl]
    exact h
  | act effects => exact h.effects hc effects command
  | @keep x t bound =>
    rw [homes_of_next_eq home (show (s.bind x t).resources.nextBuffer = s.resources.nextBuffer from rfl)]
    exact h.bind (fun _ => h.bound bound) (h.device bound) (h.owner bound) fun hne hu howns howns' =>
      hne (h.unique hu bound howns howns')
  | @derive x y t u bound view =>
    rw [homes_of_next_eq home (show (s.bind x t).resources.nextBuffer = s.resources.nextBuffer from rfl)]
    exact h.bind_view bound view
  | yield effects yields => exact h.bind_yields hc effects command yields _
  | release bound owner buffer held =>
    rw [homes_of_next_eq home (nextBuffer_dispose _ _)]
    exact h.release hc bound owner buffer
  | @detach id b held lent =>
    rw [homes_of_next_eq home (nextBuffer_dispose _ _)]
    -- what is lent comes from no allocator, so no tensor owns it
    refine h.dispose hc fun ht howns => ?_
    obtain ⟨b', hb', horigin, -⟩ := h.keeps hc ht howns (Table.contains_eq_true.2 ⟨b, held⟩)
    obtain rfl : b = b' := Option.some.inj (held.symm.trans hb')
    simp [Buffer.isOwned, horigin] at lent
  | drop =>
    rw [homes_of_next_eq home (Arena.nextBuffer_disposeAll _ _)]
    exact h.drop k c

private theorem build (options : ContextOptions) : Coherent home (s.build options) := by
  have hlen : (s.build options).contexts.length = s.contexts.length + 1 := List.length_append
  -- the new context holds nothing, and no buffer has been made in it
  have hold : ∀ {j c'}, (s.build options).context? j = some c' →
      s.context? j = some c' ∨ j = s.contexts.length ∧ ∀ id, c'.arena.get? id = none := by
    intro j c' hj
    rw [context?_build] at hj
    split at hj
    · rename_i hjk
      obtain rfl := Option.some.inj hj
      exact .inr ⟨hjk, fun _ => rfl⟩
    · exact .inl hj
  refine h.move rfl ?_ (fun hid => hid) ?_ ?_ ?_
  · intro id j hid
    rw [hlen]
    exact ⟨(h.named hid).1, by have := (h.named hid).2; omega⟩
  · intro j c' id hj hid
    rcases hold hj with hj | ⟨-, hempty⟩
    · exact h.held hj hid
    · simp [Table.contains, hempty] at hid
  · intro j c' id b hj hb _
    rcases hold hj with hj | ⟨-, hempty⟩
    · exact ⟨c', b, hj, hb, rfl⟩
    · simp [hempty] at hb
  · intro x t id j c' _ _ hhome hj hkept
    rcases hold hj with hj | ⟨hlen, -⟩
    · exact hkept c' hj
    · have := (h.named hhome).2
      omega

theorem perform {e : Event} (hstep : s.perform e = some s') : Coherent (homes home s s' e) s' := by
  cases e with
  | register name provider tracked =>
    obtain rfl := Option.some.inj hstep
    exact h.move rfl h.named (fun hid => hid) h.held (fun hj hb _ => ⟨_, _, hj, hb, rfl⟩)
      fun _ _ _ hj hkept => hkept _ hj
  | setDefault id =>
    simp only [Session.perform, Option.ite_none_right_eq_some, Option.some.injEq] at hstep
    obtain ⟨-, rfl⟩ := hstep
    exact h.move rfl h.named (fun hid => hid) h.held (fun hj hb _ => ⟨_, _, hj, hb, rfl⟩)
      fun _ _ _ hj hkept => hkept _ hj
  | build options =>
    simp only [Session.perform, Option.ite_none_right_eq_some, Option.some.injEq] at hstep
    obtain ⟨-, rfl⟩ := hstep
    exact h.build options
  | command k command =>
    obtain ⟨⟨reply, s₁⟩, hrun, rfl⟩ := Option.map_eq_some_iff.1 hstep
    obtain ⟨c, hc⟩ := context?_of_step hrun
    exact h.outcome hc (step_outcome hc hrun) command

end Coherent

theorem Run.coherent (h : Run home s) : Coherent home s := by
  induction h with
  | initial => exact coherent_initial
  | perform _ step ih => exact ih.perform step

end Session

end StridedTensor
