import StridedTensor.Proofs.Coherence

/-!
# How memory changes hands

For questions about memory alone it does not matter which context holds a buffer under which name. What is left of a
session are the resources and the list of all buffers that are held (`Session.holdings`), and what can happen to them
is an `Exchange`: buffers are written, taken from an allocator or the caller, and given back. Every session that can
come about is reached by exchanges (`Session.Run.exchanges`), so what each of them preserves holds there.
-/

namespace StridedTensor

abbrev Holdings := Resources × List Buffer

inductive Exchange : Holdings → Holdings → Prop
  /-- Buffers change their order and their bytes. -/
  | write {r : Resources} {bs bs' : List Buffer} (same : (bs'.map Buffer.blank).Perm (bs.map Buffer.blank)) :
      Exchange (r, bs) (r, bs')
  | refuse {r r' : Resources} {bs : List Buffer} {id : AllocatorId} {size alignment : Nat} {device : Device}
      {e : AllocError} (known : id < r.allocators.length)
      (failed : Buffer.allocate r id size alignment device = (.error e, r')) : Exchange (r, bs) (r', bs)
  | make {r r' : Resources} {bs : List Buffer} {id : AllocatorId} {size alignment : Nat} {device : Device} {b : Buffer}
      (known : id < r.allocators.length) (made : Buffer.allocate r id size alignment device = (.ok b, r')) :
      Exchange (r, bs) (r', b :: bs)
  | lend {r : Resources} {bs : List Buffer} (contents : Bytes) :
      Exchange (r, bs) ({ r with callerMemory := r.callerMemory ++ [contents] }, bs)
  | wrap {r : Resources} {bs : List Buffer} (address : Address) (contents : Bytes) (device : Device) :
      Exchange (r, bs) ({ r with callerMemory := r.callerMemory ++ [contents] },
        .foreign r.callerMemory.length address contents device :: bs)
  | dispose {r : Resources} {b : Buffer} {bs : List Buffer} : Exchange (r, b :: bs) (b.dispose r, bs)
  | register {r : Resources} {bs : List Buffer} (name : String) (provider : Provider) (tracked : Bool) :
      Exchange (r, bs) ((r.register ⟨name, provider, [], if tracked then some .empty else none⟩).2, bs)
  /-- Names are given, and the default allocator changes. -/
  | other {r : Resources} {bs : List Buffer} (default : AllocatorId) (next : BufferId) :
      Exchange (r, bs) ({ r with defaultAllocator := default, nextBuffer := next }, bs)

abbrev Exchanges : Holdings → Holdings → Prop := Relation.ReflTransGen Exchange

namespace Exchanges

variable {r : Resources} {bs bs' rest : List Buffer}

private theorem perm (h : bs.Perm bs') (r : Resources) : Exchanges (r, bs) (r, bs') := .single (.write (h.symm.map _))

private theorem disposeAll (r : Resources) (bs rest : List Buffer) :
    Exchanges (r, bs ++ rest) (bs.foldl (fun r b => b.dispose r) r, rest) := by
  induction bs generalizing r with
  | nil => exact .refl
  | cons b bs ih => exact .head .dispose (ih (b.dispose r))

end Exchanges

/-! ### Effects -/

private theorem Buffer.defaultAllocator_dispose (b : Buffer) (r : Resources) :
    (b.dispose r).defaultAllocator = r.defaultAllocator := by
  unfold dispose
  split <;> rfl

private theorem Arena.allocators_disposeAll (a : Arena) (r : Resources) :
    (a.disposeAll r).allocators.length = r.allocators.length ∧
      (a.disposeAll r).defaultAllocator = r.defaultAllocator := by
  unfold disposeAll
  induction a.values generalizing r with
  | nil => exact ⟨rfl, rfl⟩
  | cons b bs ih =>
    obtain ⟨hlen, hdefault⟩ := ih (b.dispose r)
    rw [List.foldl_cons, hlen, hdefault, b.length_allocators_dispose, b.defaultAllocator_dispose]
    exact ⟨rfl, rfl⟩

namespace Workspace

variable {n : BufferId} {w w' : Workspace}

theorem dispose_of_get?_none {id : BufferId} (h : w.context.arena.get? id = none) : w.dispose id = w := by
  unfold Workspace.dispose Arena.dispose
  rw [h]

theorem resources_dispose {id : BufferId} {b : Buffer} (h : w.context.arena.get? id = some b) :
    (w.dispose id).resources = b.dispose w.resources := by
  unfold Workspace.dispose Arena.dispose
  rw [h]

theorem perm_values_dispose {id : BufferId} {b : Buffer} (h : w.context.arena.get? id = some b) :
    w.context.arena.values.Perm (b :: (w.dispose id).context.arena.values) := by
  unfold Workspace.dispose Arena.dispose
  rw [h]
  exact (Table.perm_erase h).map Prod.snd

private theorem Effect.allocators (h : Effect n w w') : w'.resources.allocators.length = w.resources.allocators.length ∧
    w'.resources.defaultAllocator = w.resources.defaultAllocator := by
  cases h with
  | write | lend => exact ⟨rfl, rfl⟩
  | refuse failed =>
    rcases Buffer.allocate_eq_error failed with rfl | ⟨-, rfl⟩
    · exact ⟨rfl, rfl⟩
    · exact ⟨List.length_set, rfl⟩
  | make made =>
    obtain ⟨_, -, -, -, -, rfl⟩ := Buffer.allocate_eq_ok made
    exact ⟨List.length_set, rfl⟩
  | wrap address contents device lent made =>
    subst lent
    exact ⟨rfl, rfl⟩
  | @dispose _ id =>
    cases hget : w.context.arena.get? id with
    | none =>
      rw [dispose_of_get?_none hget]
      exact ⟨rfl, rfl⟩
    | some b =>
      rw [resources_dispose hget]
      exact ⟨b.length_allocators_dispose _, b.defaultAllocator_dispose _⟩

private theorem values_map_blank (c : Context) : c.arena.values.map Buffer.blank = c.blank.arena.values := by
  simp [Context.blank, Table.values, Table.map]

theorem mem_of_blank {c c' : Context} (h : c'.blank = c.blank) {b' : Buffer} (hb : b' ∈ c'.arena.values) :
    ∃ b ∈ c.arena.values, b.blank = b'.blank := by
  have hmem : b'.blank ∈ c.arena.values.map Buffer.blank := by
    rw [values_map_blank, ← h, ← values_map_blank]
    exact List.mem_map_of_mem hb
  exact List.mem_map.1 hmem

/-- A new buffer comes last. -/
private theorem values_add {c : Context} {r : Resources} (hfree : c.arena.get? r.nextBuffer = none) (b : Buffer) :
    (c.arena.add r b).2.1.values = c.arena.values ++ [b] := by
  unfold Table.values
  show (Table.insert c.arena r.nextBuffer b).entries.map Prod.snd = _
  rw [Table.entries_insert hfree, List.map_append]
  rfl

private theorem mem_values_add {c : Context} {r : Resources} (hfree : c.arena.get? r.nextBuffer = none) {b b' : Buffer}
    (hb : b' ∈ (c.arena.add r b).2.1.values) : b' ∈ c.arena.values ∨ b' = b := by
  rw [values_add hfree, List.mem_append, List.mem_singleton] at hb
  exact hb

/-- The context knows its allocator, and its buffers come from there and have names that have been given. -/
structure Placed (w : Workspace) : Prop where
  bound : ∀ {id}, w.context.arena.contains id = true → id < w.resources.nextBuffer
  allocator : w.context.allocator < w.resources.allocators.length
  origin : ∀ {b id}, b ∈ w.context.arena.values → b.origin = .owned id → id = w.context.allocator

private theorem Placed.get?_nextBuffer (h : Placed w) : w.context.arena.get? w.resources.nextBuffer = none := by
  cases hget : w.context.arena.get? w.resources.nextBuffer with
  | none => rfl
  | some b =>
    have hlt := h.bound (Table.contains_eq_true.2 ⟨b, hget⟩)
    lia

private theorem Effect.placed (hstep : Effect n w w') (h : Placed w) : Placed w' where
  bound {id} hid := by
    rcases hstep.grows.fresh hid with hold | hnew
    · exact Nat.lt_of_lt_of_le (h.bound hold) hstep.grows.next_le
    · exact hnew.2
  allocator := by
    rw [hstep.grows.allocator, hstep.allocators.1]
    exact h.allocator
  origin {b id} hb hid := by
    rw [hstep.grows.allocator]
    cases hstep with
    | write same =>
      obtain ⟨b₀, hb₀, hsame⟩ := mem_of_blank same hb
      have horigin : b₀.origin = b.origin := congrArg (·.origin) hsame
      exact h.origin hb₀ (horigin.trans hid)
    | refuse | lend => exact h.origin hb hid
    | @make c r r' size alignment device b₀ made =>
      obtain ⟨_, -, -, -, rfl, rfl⟩ := Buffer.allocate_eq_ok made
      rcases mem_values_add (by exact h.get?_nextBuffer) hb with hb | rfl
      · exact h.origin hb hid
      · exact (Origin.owned.inj hid).symm
    | @wrap c r r' address contents device b₀ lent made =>
      subst lent made
      rcases mem_values_add (by exact h.get?_nextBuffer) hb with hb | rfl
      · exact h.origin hb hid
      · simp [Buffer.foreign] at hid
    | @dispose _ i =>
      cases hget : w.context.arena.get? i with
      | none =>
        rw [dispose_of_get?_none hget] at hb
        exact h.origin hb hid
      | some b₀ => exact h.origin ((perm_values_dispose hget).mem_iff.2 (List.mem_cons_of_mem _ hb)) hid

/-- What an effect does to the resources and the buffers of its context, the buffers of other contexts beside it. -/
private theorem Effect.exchanges (hstep : Effect n w w') (h : Placed w) (rest : List Buffer) :
    Exchanges (w.resources, w.context.arena.values ++ rest) (w'.resources, w'.context.arena.values ++ rest) := by
  -- a buffer that comes last might as well come first
  have hlast : ∀ {c : Context} {r : Resources} (b : Buffer), c.arena.get? r.nextBuffer = none →
      (b :: (c.arena.values ++ rest)).Perm ((c.arena.add r b).2.1.values ++ rest) := by
    intro c r b hfree
    rw [values_add hfree, List.append_assoc]
    exact List.perm_middle.symm
  cases hstep with
  | @write c c' r same =>
    refine .single (.write ?_)
    simp only [List.map_append, values_map_blank, same]
    exact .refl _
  | refuse failed => exact .single (.refuse h.allocator failed)
  | @make c r r' size alignment device b made =>
    have hfree : c.arena.get? r'.nextBuffer = none := by
      obtain ⟨_, -, -, -, -, rfl⟩ := Buffer.allocate_eq_ok made
      exact h.get?_nextBuffer
    refine .head (.make h.allocator made) (.head (.other r'.defaultAllocator (r'.nextBuffer + 1)) ?_)
    exact Exchanges.perm (hlast b hfree) _
  | lend contents => exact .single (.lend contents)
  | @wrap c r r' address contents device b lent made =>
    subst lent made
    refine .head (.wrap address contents device) (.head (.other r.defaultAllocator (r.nextBuffer + 1)) ?_)
    exact Exchanges.perm (hlast (r := { r with callerMemory := r.callerMemory ++ [contents] }) _ h.get?_nextBuffer) _
  | @dispose _ id =>
    cases hget : w.context.arena.get? id with
    | none =>
      rw [dispose_of_get?_none hget]
    | some b =>
      rw [resources_dispose hget]
      refine (Exchanges.perm ((perm_values_dispose hget).append_right rest) _).trans (.single ?_)
      exact .dispose

private theorem Effects.allocators (h : Effects n w w') :
    w'.resources.allocators.length = w.resources.allocators.length ∧
    w'.resources.defaultAllocator = w.resources.defaultAllocator := by
  induction h with
  | refl => exact ⟨rfl, rfl⟩
  | tail _ step ih => exact ⟨step.allocators.1.trans ih.1, step.allocators.2.trans ih.2⟩

theorem Effects.placed (hsteps : Effects n w w') (h : Placed w) : Placed w' := by
  induction hsteps with
  | refl => exact h
  | tail _ step ih => exact step.placed ih

private theorem Effects.exchanges (hsteps : Effects n w w') (h : Placed w) (rest : List Buffer) :
    Exchanges (w.resources, w.context.arena.values ++ rest) (w'.resources, w'.context.arena.values ++ rest) := by
  induction hsteps with
  | refl => exact .refl
  | tail steps step ih => exact ih.trans (step.exchanges (Effects.placed steps h) rest)

end Workspace

/-! ### Sessions -/

namespace Session

open Workspace

variable {s s' : Session} {k : Nat} {c : Context} {home : BufferId → Option Nat}

/-- The buffers that contexts hold. -/
def buffers (s : Session) : List Buffer := s.contexts.flatMap fun c => c.elim [] (·.arena.values)

def holdings (s : Session) : Holdings := (s.resources, s.buffers)

/-- The buffers of the contexts other than `k`. -/
private def others (s : Session) (k : Nat) : List Buffer :=
  (s.contexts.eraseIdx k).flatMap fun c => c.elim [] (·.arena.values)

private theorem perm_buffers (hc : s.context? k = some c) : s.buffers.Perm (c.arena.values ++ s.others k) := by
  obtain ⟨hk, hget⟩ := List.getElem?_eq_some_iff.1 (getElem?_of_context? hc)
  have hperm := List.getElem_cons_eraseIdx_perm hk
  rw [hget] at hperm
  exact hperm.symm.flatMap_right _

private theorem perm_buffers_set (hc : s.context? k = some c) (c' : Option Context) (r : Resources) :
    ({ s with contexts := s.contexts.set k c', resources := r } : Session).buffers.Perm
      (c'.elim [] (·.arena.values) ++ s.others k) :=
  (List.set_perm_cons_eraseIdx (lt_of_context? hc) c').flatMap_right _

theorem mem_buffers {b : Buffer} : b ∈ s.buffers ↔ ∃ k c, s.context? k = some c ∧ b ∈ c.arena.values := by
  unfold buffers
  rw [List.mem_flatMap]
  constructor
  · rintro ⟨c, hmem, hb⟩
    cases c with
    | none => simp at hb
    | some c =>
      obtain ⟨k, hk⟩ := List.mem_iff_getElem?.1 hmem
      exact ⟨k, c, by simp [context?, hk], hb⟩
  · rintro ⟨k, c, hc, hb⟩
    exact ⟨some c, List.mem_of_getElem? (getElem?_of_context? hc), hb⟩

/-- A buffer leaves the context that holds it. -/
theorem perm_buffers_dispose (hc : s.context? k = some c) {id : BufferId} {b : Buffer}
    (hb : c.arena.get? id = some b) :
    s.buffers.Perm (b :: (s.setWorkspace k (Workspace.dispose ⟨c, s.resources⟩ id)).buffers) := by
  have hset := perm_buffers_set hc (some (Workspace.dispose ⟨c, s.resources⟩ id).context)
    (Workspace.dispose ⟨c, s.resources⟩ id).resources
  have hvalues := (perm_values_dispose (w := ⟨c, s.resources⟩) hb).append_right (s.others k)
  exact ((perm_buffers hc).trans hvalues).trans (hset.symm.cons b)

/-- The contexts and the default know their allocators. -/
structure Placed (s : Session) : Prop where
  default : s.resources.defaultAllocator < s.resources.allocators.length
  allocator : ∀ {k c}, s.context? k = some c → c.allocator < s.resources.allocators.length
  origin : ∀ {k c b id}, s.context? k = some c → b ∈ c.arena.values → b.origin = .owned id → id = c.allocator

private theorem placed_initial : Placed initial where
  default := by decide
  allocator h := by simp [context?, initial] at h
  origin h := by simp [context?, initial] at h

namespace Placed

variable (h : Placed s)
include h

theorem workspace (hs : Coherent home s) (hc : s.context? k = some c) : Workspace.Placed ⟨c, s.resources⟩ where
  bound hid := (hs.named (hs.held hc hid)).1
  allocator := h.allocator hc
  origin := h.origin hc

private theorem effects (hs : Coherent home s) (hc : s.context? k = some c) {n : BufferId} {w : Workspace}
    (heffects : Effects n ⟨c, s.resources⟩ w) :
    Placed (s.setWorkspace k w) ∧ Exchanges s.holdings (s.setWorkspace k w).holdings := by
  have hplaced := h.workspace hs hc
  obtain ⟨hlen, hdefault⟩ := heffects.allocators
  refine ⟨⟨?_, fun {j c'} hj => ?_, fun {j c' b id} hj hb hid => ?_⟩, ?_⟩
  · rw [resources_setWorkspace, hlen, hdefault]
    exact h.default
  · rw [context?_setWorkspace hc] at hj
    split at hj
    · obtain rfl := Option.some.inj hj
      exact (heffects.placed hplaced).allocator
    · rw [resources_setWorkspace, hlen]
      exact h.allocator hj
  · rw [context?_setWorkspace hc] at hj
    split at hj
    · obtain rfl := Option.some.inj hj
      exact (heffects.placed hplaced).origin hb hid
    · exact h.origin hj hb hid
  · exact (Exchanges.perm (perm_buffers hc) _).trans ((heffects.exchanges hplaced (s.others k)).trans
      (Exchanges.perm (perm_buffers_set hc (some w.context) w.resources).symm _))

private theorem drop (hc : s.context? k = some c) {s' : Session}
    (hs' : s' = { s with contexts := s.contexts.set k none, resources := Workspace.drop ⟨c, s.resources⟩ }) :
    Placed s' ∧ Exchanges s.holdings s'.holdings := by
  have hold : ∀ {j c'}, s'.context? j = some c' → s.context? j = some c' := by
    intro j c' hj
    rw [hs', context?_set_none] at hj
    split at hj
    · simp at hj
    · exact hj
  have hresources : s'.resources = c.arena.disposeAll s.resources := by rw [hs']; rfl
  obtain ⟨hlen, hdefault⟩ := Arena.allocators_disposeAll c.arena s.resources
  refine ⟨⟨?_, fun hj => ?_, fun hj => h.origin (hold hj)⟩, ?_⟩
  · rw [hresources, hlen, hdefault]
    exact h.default
  · rw [hresources, hlen]
    exact h.allocator (hold hj)
  · rw [hs']
    exact (Exchanges.perm (perm_buffers hc) _).trans ((Exchanges.disposeAll s.resources c.arena.values _).trans
      (Exchanges.perm (perm_buffers_set hc none _).symm _))

private theorem outcome (hs : Coherent home s) (hc : s.context? k = some c) (houtcome : Outcome s k c s') :
    Placed s' ∧ Exchanges s.holdings s'.holdings := by
  cases houtcome with
  | read => exact ⟨h, .refl⟩
  | keep | derive => exact ⟨⟨h.default, h.allocator, h.origin⟩, .refl⟩
  | act effects => exact h.effects hs hc effects
  | yield effects yields =>
    obtain ⟨hplaced, hexchanges⟩ := h.effects hs hc effects
    exact ⟨⟨hplaced.default, hplaced.allocator, hplaced.origin⟩, hexchanges⟩
  | @release x t id bound owner buffer held =>
    obtain ⟨hplaced, hexchanges⟩ := h.effects hs hc (.single (.dispose _ (Nat.zero_le id)))
    exact ⟨⟨hplaced.default, hplaced.allocator, hplaced.origin⟩, hexchanges⟩
  | @detach id b held lent => exact h.effects hs hc (.single (.dispose _ (Nat.zero_le id)))
  | drop => exact h.drop hc rfl

private theorem build {options : ContextOptions}
    (hoptions : options.allocator.all (· < s.resources.allocators.length) = true) : Placed (s.build options) := by
  refine ⟨h.default, fun {j c'} hj => ?_, fun {j c' b id} hj hb hid => ?_⟩
  · rw [context?_build] at hj
    split at hj
    · obtain rfl := Option.some.inj hj
      show options.allocator.getD s.resources.defaultAllocator < s.resources.allocators.length
      cases hid : options.allocator with
      | none => exact h.default
      | some id => simpa [hid] using hoptions
    · exact h.allocator hj
  · rw [context?_build] at hj
    split at hj
    · obtain rfl := Option.some.inj hj
      simp [Context.build, Table.values, Table.empty] at hb
    · exact h.origin hj hb hid

theorem perform (hs : Coherent home s) {e : Event} (hstep : s.perform e = some s') :
    Placed s' ∧ Exchanges s.holdings s'.holdings := by
  cases e with
  | register name provider tracked =>
    obtain rfl := Option.some.inj hstep
    have hlen : ∀ a, (s.resources.register a).2.allocators.length = s.resources.allocators.length + 1 := fun a =>
      List.length_append
    refine ⟨⟨?_, fun hj => ?_, h.origin⟩, .single (.register name provider tracked)⟩
    · show s.resources.defaultAllocator < _
      rw [hlen]
      exact Nat.lt_succ_of_lt h.default
    · rw [hlen]
      exact Nat.lt_succ_of_lt (h.allocator hj)
  | setDefault id =>
    simp only [Session.perform, Option.ite_none_right_eq_some, Option.some.injEq] at hstep
    obtain ⟨hid, rfl⟩ := hstep
    exact ⟨⟨hid, h.allocator, h.origin⟩, .single (.other id s.resources.nextBuffer)⟩
  | build options =>
    simp only [Session.perform, Option.ite_none_right_eq_some, Option.some.injEq] at hstep
    obtain ⟨hoptions, rfl⟩ := hstep
    have hbuffers : (s.build options).buffers = s.buffers := by
      simp [buffers, Session.build, Context.build, Table.values, Table.empty]
    refine ⟨h.build hoptions, ?_⟩
    unfold holdings
    rw [hbuffers]
    exact .refl
  | command k command =>
    obtain ⟨⟨reply, s₁⟩, hrun, rfl⟩ := Option.map_eq_some_iff.1 hstep
    obtain ⟨c, hc⟩ := context?_of_step hrun
    exact h.outcome hs hc (step_outcome hc hrun)

end Placed

theorem Run.placed (h : Run home s) : Placed s := by
  induction h with
  | initial => exact placed_initial
  | perform run step ih => exact (ih.perform run.coherent step).1

theorem Run.exchanges (h : Run home s) : Exchanges Session.initial.holdings s.holdings := by
  induction h with
  | initial => exact .refl
  | perform run step ih => exact ih.trans (run.placed.perform run.coherent step).2

theorem Run.exchanges_performAll (h : Run home s) {events : List Event} (hs : s.performAll events = some s') :
    Exchanges s.holdings s'.holdings := by
  induction events generalizing home s with
  | nil =>
    obtain rfl := Option.some.inj hs
    exact .refl
  | cons e events ih =>
    obtain ⟨s₁, hstep, hs⟩ := Option.bind_eq_some_iff.1 hs
    exact (h.placed.perform h.coherent hstep).2.trans (ih (h.perform hstep) hs)

end Session

end StridedTensor
