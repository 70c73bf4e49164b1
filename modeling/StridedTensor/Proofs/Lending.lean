import StridedTensor.Proofs.Exchange

/-!
# Lent memory

Memory that a caller lends is one buffer for as long as it is wrapped (`Holdings.Separate`). Once the caller has it back
it keeps its bytes (`Exchanges.callerMemory_eq`). It stays on its device and keeps its length wherever it is
(`Exchanges.lends`).
-/

namespace StridedTensor

/-- The memory that was lent as the buffer. -/
def Buffer.memory? (b : Buffer) : Option Nat :=
  match b.origin with
  | .owned _ => none
  | .foreign memory => some memory

/-- The memory that callers have lent and not got back. -/
def Holdings.lent (x : Holdings) : List Nat := x.2.filterMap Buffer.memory?

namespace Buffer

variable {b : Buffer}

theorem dispose_of_foreign {m : Nat} (h : b.origin = .foreign m) (r : Resources) :
    b.dispose r = { r with callerMemory := r.callerMemory.set m b.contents } := by
  unfold dispose
  rw [h]

theorem callerMemory_dispose_of_owned {id : AllocatorId} (h : b.origin = .owned id) (r : Resources) :
    (b.dispose r).callerMemory = r.callerMemory := by
  unfold dispose
  rw [h]
  rfl

end Buffer

namespace Holdings

variable {r : Resources} {b : Buffer} {bs bs' : List Buffer}

private theorem lent_perm (h : (bs'.map Buffer.blank).Perm (bs.map Buffer.blank)) (r r' : Resources) :
    (lent (r', bs')).Perm (lent (r, bs)) := by
  have hperm := h.filterMap Buffer.memory?
  rwa [List.filterMap_map, List.filterMap_map] at hperm

private theorem lent_cons_of_owned {id : AllocatorId} (h : b.origin = .owned id) (r r' : Resources) (bs : List Buffer) :
    lent (r', b :: bs) = lent (r, bs) :=
  List.filterMap_cons_none (by simp [Buffer.memory?, h])

private theorem lent_cons_of_foreign {m : Nat} (h : b.origin = .foreign m) (r r' : Resources) (bs : List Buffer) :
    lent (r', b :: bs) = m :: lent (r, bs) :=
  List.filterMap_cons_some (by simp [Buffer.memory?, h])

end Holdings

/-- Each piece of lent memory is one buffer, and the pieces `idle` are with the caller. -/
structure Holdings.Separate (idle : List Nat) (x : Holdings) : Prop where
  nodup : (idle ++ x.lent).Nodup
  known : ∀ m ∈ idle ++ x.lent, m < x.1.callerMemory.length

section Exchanges

variable {x y : Holdings} {idle : List Nat} {m : Nat}

/-- It stays so while no more memory is lent. -/
private theorem Holdings.Separate.mono (h : x.Separate idle) (hlent : List.Subperm y.lent x.lent)
    (hlen : x.1.callerMemory.length ≤ y.1.callerMemory.length) : y.Separate idle where
  nodup := by
    obtain ⟨l, hperm, hsub⟩ := hlent
    exact (hperm.append_left idle).nodup_iff.1 (h.nodup.sublist (hsub.append_left idle))
  known m hm := by
    refine Nat.lt_of_lt_of_le (h.known m ?_) hlen
    rw [List.mem_append] at hm ⊢
    exact hm.imp_right fun hm => hlent.subset hm

theorem Exchange.separate (hstep : Exchange x y) (h : x.Separate idle) : y.Separate idle := by
  cases hstep with
  | @write r bs bs' same => exact h.mono (Holdings.lent_perm same r r).subperm (Nat.le_refl _)
  | @refuse r r' bs id size alignment device e known failed =>
    refine h.mono (List.Subperm.refl _) (Nat.le_of_eq ?_)
    rcases Buffer.allocate_eq_error failed with rfl | ⟨-, rfl⟩ <;> rfl
  | @make r r' bs id size alignment device b known made =>
    obtain ⟨_, -, -, -, rfl, rfl⟩ := Buffer.allocate_eq_ok made
    refine h.mono ?_ (Nat.le_refl _)
    rw [Holdings.lent_cons_of_owned rfl r]
  | @lend r bs contents =>
    refine h.mono (List.Subperm.refl _) ?_
    rw [List.length_append]
    exact Nat.le_add_right _ _
  | @wrap r bs address contents device =>
    -- the new memory comes after all that has been lent before
    have hnew : r.callerMemory.length ∉ idle ++ Holdings.lent (r, bs) := fun hm => Nat.lt_irrefl _ (h.known _ hm)
    have hperm : (idle ++ r.callerMemory.length :: Holdings.lent (r, bs)).Perm
        (r.callerMemory.length :: (idle ++ Holdings.lent (r, bs))) := List.perm_middle
    refine ⟨?_, fun m hm => ?_⟩
    · rw [Holdings.lent_cons_of_foreign rfl r, hperm.nodup_iff]
      exact List.nodup_cons.2 ⟨hnew, h.nodup⟩
    · rw [Holdings.lent_cons_of_foreign rfl r, hperm.mem_iff, List.mem_cons] at hm
      rw [List.length_append, List.length_singleton]
      rcases hm with rfl | hm
      · exact Nat.lt_succ_self _
      · exact Nat.lt_succ_of_lt (h.known m hm)
  | @dispose r b bs =>
    refine h.mono ((List.sublist_cons_self b bs).filterMap _).subperm ?_
    rw [Buffer.length_callerMemory_dispose]
  | register | other => exact h.mono (List.Subperm.refl _) (Nat.le_refl _)

/-- Only memory that is lent gets other bytes, when it is given back. -/
private theorem Exchange.callerMemory_eq (hstep : Exchange x y) (h : x.Separate idle) (hm : m ∈ idle) :
    y.1.callerMemory[m]? = x.1.callerMemory[m]? := by
  have hknown : m < x.1.callerMemory.length := h.known m (List.mem_append_left _ hm)
  cases hstep with
  | refuse known failed => rcases Buffer.allocate_eq_error failed with rfl | ⟨-, rfl⟩ <;> rfl
  | make known made =>
    obtain ⟨_, -, -, -, rfl, rfl⟩ := Buffer.allocate_eq_ok made
    rfl
  | lend | wrap => exact List.getElem?_append_left hknown
  | @dispose r b bs =>
    cases horigin : b.origin with
    | owned id => rw [Buffer.callerMemory_dispose_of_owned horigin]
    | foreign m' =>
      rw [Buffer.dispose_of_foreign horigin]
      refine List.getElem?_set_ne ?_
      rintro rfl
      refine List.disjoint_of_nodup_append h.nodup hm ?_
      rw [Holdings.lent_cons_of_foreign horigin r]
      exact List.mem_cons_self
  | write | register | other => rfl

private theorem Exchanges.separate (hsteps : Exchanges x y) (h : x.Separate idle) : y.Separate idle := by
  induction hsteps with
  | refl => exact h
  | tail _ step ih => exact step.separate ih

/-- Memory that is with the caller keeps its bytes. -/
theorem Exchanges.callerMemory_eq (hsteps : Exchanges x y) (h : x.Separate idle) (hm : m ∈ idle) :
    y.1.callerMemory[m]? = x.1.callerMemory[m]? := by
  induction hsteps with
  | refl => rfl
  | tail steps step ih => exact (step.callerMemory_eq (Exchanges.separate steps h) hm).trans ih

end Exchanges

namespace Session

open Workspace

variable {s : Session} {home : BufferId → Option Nat}

private theorem Run.separate (h : Run home s) : s.holdings.Separate [] :=
  h.exchanges.separate ⟨List.nodup_nil, fun m hm => by simp [Holdings.lent, holdings, buffers, Session.initial] at hm⟩

/-- Memory that is detached goes back to the caller with the bytes of the buffer. -/
theorem Run.separate_of_detach (h : Run home s) {k : Nat} {c : Context} {id : BufferId} {b : Buffer} {m : Nat}
    (hc : s.context? k = some c) (hb : c.arena.get? id = some b) (horigin : b.origin = .foreign m) :
    (s.setWorkspace k (Workspace.dispose ⟨c, s.resources⟩ id)).holdings.Separate [m] ∧
      (s.setWorkspace k (Workspace.dispose ⟨c, s.resources⟩ id)).resources.callerMemory[m]? = some b.contents := by
  have hresources : (s.setWorkspace k (Workspace.dispose ⟨c, s.resources⟩ id)).resources =
      { s.resources with callerMemory := s.resources.callerMemory.set m b.contents } := by
    rw [resources_setWorkspace, resources_dispose (w := ⟨c, s.resources⟩) hb, Buffer.dispose_of_foreign horigin]
  -- what was lent is the memory of the buffer and what is lent afterwards
  have hperm := (perm_buffers_dispose hc hb).filterMap Buffer.memory?
  rw [List.filterMap_cons_some (show b.memory? = some m by simp [Buffer.memory?, horigin])] at hperm
  have hknown : ∀ m' ∈ m :: (s.setWorkspace k (Workspace.dispose ⟨c, s.resources⟩ id)).holdings.lent,
      m' < s.resources.callerMemory.length := fun m' hm' => h.separate.known m' (hperm.mem_iff.2 hm')
  refine ⟨⟨hperm.nodup_iff.1 h.separate.nodup, fun m' hm' => ?_⟩, ?_⟩
  · show m' < (s.setWorkspace k _).resources.callerMemory.length
    rw [hresources, List.length_set]
    exact hknown m' hm'
  · rw [hresources, List.getElem?_set_self (hknown m List.mem_cons_self)]

end Session

/-! ### Pieces of lent memory -/

/-- The piece `m` of lent memory, of which `p` says on what device and how long it is: wherever it is held, and with the
caller. -/
structure Holdings.Lends (m : Nat) (p : Device → Nat → Prop) (x : Holdings) : Prop where
  buffer : ∀ {b}, b ∈ x.2 → b.origin = .foreign m → p b.device b.size
  memory : ∃ device contents, x.1.callerMemory[m]? = some contents ∧ p device contents.size

section Lends

variable {x y : Holdings} {m : Nat} {p : Device → Nat → Prop}

theorem Holdings.Lends.lt (h : x.Lends m p) : m < x.1.callerMemory.length := by
  obtain ⟨_, contents, hm, -⟩ := h.memory
  exact (List.getElem?_eq_some_iff.1 hm).1

/-- A piece of memory stays on its device and keeps its length. -/
theorem Exchange.lends (hstep : Exchange x y) (h : x.Lends m p) : y.Lends m p := by
  obtain ⟨device₀, contents₀, hmemory, hp⟩ := h.memory
  have hlt : m < x.1.callerMemory.length := h.lt
  cases hstep with
  | @write r bs bs' same =>
    refine ⟨fun {b'} hb' horigin => ?_, h.memory⟩
    obtain ⟨b, hb, hblank⟩ := List.mem_map.1 (same.subset (List.mem_map_of_mem hb'))
    have hdevice : b.device = b'.device := (congrArg Buffer.device hblank :)
    have hforeign : b.origin = b'.origin := (congrArg Buffer.origin hblank :)
    rw [← hdevice, ← Buffer.size_eq_of_blank hblank]
    exact h.buffer hb (hforeign.trans horigin)
  | refuse known failed =>
    refine ⟨h.buffer, ?_⟩
    rcases Buffer.allocate_eq_error failed with rfl | ⟨-, rfl⟩ <;> exact h.memory
  | make known made =>
    obtain ⟨_, -, -, -, rfl, rfl⟩ := Buffer.allocate_eq_ok made
    refine ⟨fun {b'} hb' horigin => ?_, h.memory⟩
    rcases List.mem_cons.1 hb' with rfl | hold
    · cases horigin
    · exact h.buffer hold horigin
  | lend contents =>
    exact ⟨h.buffer, device₀, contents₀, (List.getElem?_append_left hlt).trans hmemory, hp⟩
  | wrap address contents device =>
    refine ⟨fun {b'} hb' horigin => ?_, device₀, contents₀, (List.getElem?_append_left hlt).trans hmemory, hp⟩
    rcases List.mem_cons.1 hb' with rfl | hold
    · have hnew : _ = m := Origin.foreign.inj horigin
      simp only at hlt
      omega
    · exact h.buffer hold horigin
  | @dispose r b bs =>
    refine ⟨fun hb' => h.buffer (List.mem_cons_of_mem b hb'), ?_⟩
    cases horigin : b.origin with
    | owned id =>
      rw [Buffer.callerMemory_dispose_of_owned horigin]
      exact h.memory
    | foreign m' =>
      rw [Buffer.dispose_of_foreign horigin]
      by_cases hm : m' = m
      · subst hm
        exact ⟨b.device, b.contents, List.getElem?_set_self hlt, h.buffer List.mem_cons_self horigin⟩
      · exact ⟨device₀, contents₀, (List.getElem?_set_ne hm).trans hmemory, hp⟩
  | register | other => exact ⟨h.buffer, h.memory⟩

theorem Exchanges.lends (hsteps : Exchanges x y) (h : x.Lends m p) : y.Lends m p := by
  induction hsteps with
  | refl => exact h
  | tail _ step ih => exact step.lends ih

theorem Exchanges.length_callerMemory_le (hsteps : Exchanges x y) :
    x.1.callerMemory.length ≤ y.1.callerMemory.length := by
  by_contra hlt
  have hknown : y.1.callerMemory.length < x.1.callerMemory.length := by omega
  have htrivial : x.Lends y.1.callerMemory.length fun _ _ => True :=
    ⟨fun _ _ => trivial, .cpu, _, List.getElem?_eq_getElem hknown, trivial⟩
  exact Nat.lt_irrefl _ (hsteps.lends htrivial).lt

end Lends

/-- What is lent is one more piece, and at most one more buffer. -/
private theorem Workspace.wrap_lends (w : Workspace) (address : Address) (contents : Bytes) (extents : List Nat)
    (type : ElementType) (device : Device) :
    (w.wrap address contents extents type device).2.resources.callerMemory = w.resources.callerMemory ++ [contents] ∧
      ∀ b ∈ (w.wrap address contents extents type device).2.context.arena.values,
        b ∈ w.context.arena.values ∨ b = .foreign w.resources.callerMemory.length address contents device := by
  unfold wrap
  simp only
  split
  · exact ⟨rfl, fun b hb => .inl hb⟩
  · split
    · exact ⟨rfl, fun b hb => .inl hb⟩
    · split
      · exact ⟨rfl, fun b hb => .inl hb⟩
      · exact ⟨rfl, fun b hb => Table.mem_values_insert hb⟩

namespace Session

variable {s s' : Session} {home : BufferId → Option Nat} {m : Nat} {b : Buffer} {e : Event}

/-- Only memory that has been lent is held. -/
theorem Run.lt_of_origin (h : Run home s) (hb : b ∈ s.buffers) (horigin : b.origin = .foreign m) :
    m < s.resources.callerMemory.length := by
  have hmemory : b.memory? = some m := by
    unfold Buffer.memory?
    rw [horigin]
  have hlent : m ∈ s.holdings.lent := List.mem_filterMap.2 ⟨b, hb, hmemory⟩
  exact h.separate.known m hlent

theorem Run.exchanges_perform (h : Run home s) (hs : s.perform e = some s') : Exchanges s.holdings s'.holdings :=
  (h.placed.perform h.coherent hs).2

theorem Run.perform_wrap (h : Run home s) {k : Nat} {out : Handle} {address : Address} {contents : Bytes} {extents : List Nat}
    {type : ElementType} {device : Device}
    (hs : s.perform (.command k (.wrap out address contents extents type device)) = some s') :
    s'.resources.callerMemory = s.resources.callerMemory ++ [contents] ∧
      ∀ b ∈ s'.buffers, b.origin = .foreign s.resources.callerMemory.length →
        b = .foreign s.resources.callerMemory.length address contents device := by
  obtain ⟨⟨reply, s₁⟩, hstep, rfl⟩ := Option.map_eq_some_iff.1 hs
  obtain ⟨c, hc⟩ := context?_of_step hstep
  obtain ⟨hmemory, hvalues⟩ := Workspace.wrap_lends ⟨c, s.resources⟩ address contents extents type device
  have hleft : (s.bindResult k out (Workspace.wrap ⟨c, s.resources⟩ address contents extents type device)).2 = s₁ := by
    unfold step at hstep
    simp only [hc, Option.bind_eq_bind, Option.bind_some, Option.pure_def, Option.some.injEq] at hstep
    exact congrArg Prod.snd hstep
  generalize Workspace.wrap ⟨c, s.resources⟩ address contents extents type device = o at hmemory hvalues hleft
  obtain ⟨r, w⟩ := o
  have hresources : s₁.resources = w.resources := by
    rw [← hleft]
    cases r <;> rfl
  have hcontext : ∀ j, s₁.context? j = if j = k then some w.context else s.context? j := by
    intro j
    rw [← context?_setWorkspace hc, ← hleft]
    cases r <;> rfl
  refine ⟨by rw [hresources]; exact hmemory, fun b hb horigin => ?_⟩
  obtain ⟨j, c', hc', hmem⟩ := mem_buffers.1 hb
  have hold : ∀ {i d}, s.context? i = some d → b ∉ d.arena.values := by
    intro i d hd hb
    exact Nat.lt_irrefl _ (h.lt_of_origin (mem_buffers.2 ⟨i, d, hd, hb⟩) horigin)
  rw [hcontext] at hc'
  split at hc'
  · obtain rfl := Option.some.inj hc'
    rcases hvalues b hmem with hmem | hnew
    · exact absurd hmem (hold hc)
    · exact hnew
  · exact absurd hmem (hold hc')

end Session

end StridedTensor
