import StridedTensor.Proofs.Conservation

/-!
# What does not change

A context keeps the settings that it was built with (`Session.settings_of_perform`), an allocator the provider that it
was registered with (`Exchange.provider_eq`), and the name of a buffer stands for that buffer and no other
(`Session.Names`).
-/

namespace StridedTensor

/-! ### Settings of contexts -/

def Context.settings (c : Context) : AllocatorId × Bool × Nat := (c.allocator, c.strict, c.alignment)

private theorem Workspace.Effect.settings_eq {n : BufferId} {w w' : Workspace} (h : Effect n w w') :
    w'.context.settings = w.context.settings := by
  cases h with
  | write same =>
    have hsettings := congrArg Context.settings same
    exact hsettings
  | _ => rfl

private theorem Workspace.Effects.settings_eq {n : BufferId} {w w' : Workspace} (h : Effects n w w') :
    w'.context.settings = w.context.settings := by
  induction h with
  | refl => rfl
  | tail _ hstep ih => exact hstep.settings_eq.trans ih

namespace Session

variable {s s' : Session} {k : Nat} {c : Context}

private theorem Outcome.settings_eq (hc : s.context? k = some c) (h : Outcome s k c s') :
    s'.contexts.length = s.contexts.length ∧
      ∀ {j c'}, s'.context? j = some c' → ∃ c₀, s.context? j = some c₀ ∧ c'.settings = c₀.settings := by
  have hset : ∀ {w : Workspace}, w.context.settings = c.settings →
      (s.setWorkspace k w).contexts.length = s.contexts.length ∧ ∀ {j c'}, (s.setWorkspace k w).context? j = some c' →
        ∃ c₀, s.context? j = some c₀ ∧ c'.settings = c₀.settings := by
    intro w hw
    refine ⟨List.length_set, fun {j c'} hj => ?_⟩
    rw [context?_setWorkspace hc] at hj
    split at hj
    · rename_i hjk
      obtain rfl := Option.some.inj hj
      exact ⟨c, hjk ▸ hc, hw⟩
    · exact ⟨c', hj, rfl⟩
  cases h with
  | read | keep | derive => exact ⟨rfl, fun hj => ⟨_, hj, rfl⟩⟩
  | act effects | yield effects yields => exact hset effects.settings_eq
  | release | detach => exact hset rfl
  | drop =>
    refine ⟨List.length_set, fun {j c'} hj => ?_⟩
    rw [context?_set_none] at hj
    split at hj
    · simp at hj
    · exact ⟨c', hj, rfl⟩

theorem settings_of_perform {e : Event} (h : s.perform e = some s') (hk : k < s.contexts.length) :
    k < s'.contexts.length ∧
      ∀ {c'}, s'.context? k = some c' → ∃ c, s.context? k = some c ∧ c'.settings = c.settings := by
  rcases outcome_of_perform h with ⟨i, c, hc, houtcome⟩ | ⟨-, hlength, hcontexts⟩
  · obtain ⟨hlength, hsettings⟩ := houtcome.settings_eq hc
    exact ⟨hlength ▸ hk, hsettings⟩
  · refine ⟨hk.trans_le hlength, fun {c'} hc' => ?_⟩
    rcases hcontexts hc' with hold | ⟨hnew, -⟩
    · exact ⟨c', hold, rfl⟩
    · exact absurd hnew hk.ne

end Session

/-! ### Providers -/

private theorem Resources.provider_setAllocator {r : Resources} {id : AllocatorId} {a : Allocator}
    (ha : a.provider = (r.allocator id).provider) (j : AllocatorId) :
    ((r.setAllocator id a).allocator j).provider = (r.allocator j).provider := by
  by_cases hid : id < r.allocators.length
  · rw [allocator_setAllocator hid]
    split
    · rename_i hj
      rw [hj, ha]
    · rfl
  · unfold allocator setAllocator
    rw [List.set_eq_of_length_le (Nat.le_of_not_lt hid)]

theorem Exchange.provider_eq {h h' : Holdings} (step : Exchange h h') {j : AllocatorId}
    (hj : j < h.1.allocators.length) :
    j < h'.1.allocators.length ∧ (h'.1.allocator j).provider = (h.1.allocator j).provider := by
  cases step with
  | write | lend | wrap | other => exact ⟨hj, rfl⟩
  | refuse known failed =>
    rcases Buffer.allocate_eq_error failed with rfl | ⟨-, rfl⟩
    · exact ⟨hj, rfl⟩
    · exact ⟨by simpa using hj, Resources.provider_setAllocator (Allocator.provider_allocate _ _) j⟩
  | make known made =>
    obtain ⟨_, -, -, -, -, rfl⟩ := Buffer.allocate_eq_ok made
    exact ⟨by simpa using hj, Resources.provider_setAllocator (Allocator.provider_allocate _ _) j⟩
  | @dispose r b bs =>
    refine ⟨by simpa using hj, ?_⟩
    unfold Buffer.dispose
    split
    · exact Resources.provider_setAllocator (Allocator.provider_free _ _ _) j
    · rfl
  | @register r bs name provider tracked =>
    refine ⟨?_, congrArg Allocator.provider ?_⟩
    · exact Nat.lt_of_lt_of_le hj (by simp [Resources.register])
    · simp only [Resources.allocator, Resources.register, List.getD_eq_getElem?_getD]
      rw [List.getElem?_append_left hj]

private theorem Exchanges.provider_eq {h h' : Holdings} (steps : Exchanges h h') {a : AllocatorId}
    (ha : a < h.1.allocators.length) :
    a < h'.1.allocators.length ∧ (h'.1.allocator a).provider = (h.1.allocator a).provider := by
  induction steps with
  | refl => exact ⟨ha, rfl⟩
  | tail _ step ih =>
    obtain ⟨hlt, heq⟩ := step.provider_eq ih.1
    exact ⟨hlt, heq.trans ih.2⟩

namespace Session

variable {s s' : Session} {k j : Nat} {c c' : Context} {id : BufferId} {b : Buffer}

theorem Run.provider_eq {home : BufferId → Option Nat} (h : Run home s) {events : List Event}
    (hs : s.performAll events = some s') {a : AllocatorId} (ha : a < s.resources.allocators.length) :
    (s'.resources.allocator a).provider = (s.resources.allocator a).provider :=
  ((h.exchanges_performAll hs).provider_eq ha).2

/-! ### Names of buffers -/

/-- The buffer that a command leaves in a context under an old name was there before. -/
private theorem Outcome.get?_of_lt (hc : s.context? k = some c) (h : Outcome s k c s')
    (hid : id < s.resources.nextBuffer)
    (hj : s'.context? j = some c') (hb : c'.arena.get? id = some b) :
    ∃ c₀ b₀, s.context? j = some c₀ ∧ c₀.arena.get? id = some b₀ ∧ b.blank = b₀.blank := by
  have hset : ∀ {w : Workspace}, (∀ {b}, w.context.arena.get? id = some b →
      ∃ b₀, c.arena.get? id = some b₀ ∧ b.blank = b₀.blank) → (s.setWorkspace k w).context? j = some c' →
      ∃ c₀ b₀, s.context? j = some c₀ ∧ c₀.arena.get? id = some b₀ ∧ b.blank = b₀.blank := by
    intro w hw hj
    rw [context?_setWorkspace hc] at hj
    split at hj
    · rename_i hjk
      obtain rfl := Option.some.inj hj
      obtain ⟨b₀, hb₀, hsame⟩ := hw hb
      exact ⟨c, b₀, hjk ▸ hc, hb₀, hsame⟩
    · exact ⟨c', b, hj, hb, rfl⟩
  cases h with
  | read | keep | derive => exact ⟨c', b, hj, hb, rfl⟩
  | act effects | yield effects yields =>
    refine hset (fun hw => ?_) hj
    obtain ⟨b₀, hb₀, hsame⟩ := Context.get?_of_blank (effects.grows.kept hid hid).symm hw
    exact ⟨b₀, hb₀, hsame.symm⟩
  | release | detach =>
    refine hset (fun hw => ?_) hj
    rw [Workspace.get?_dispose] at hw
    split at hw
    · simp at hw
    · exact ⟨_, hw, rfl⟩
  | drop =>
    rw [context?_set_none] at hj
    split at hj
    · simp at hj
    · exact ⟨c', b, hj, hb, rfl⟩

private theorem get?_of_perform {e : Event} (h : s.perform e = some s') (hid : id < s.resources.nextBuffer)
    (hj : s'.context? j = some c') (hb : c'.arena.get? id = some b) :
    ∃ c₀ b₀, s.context? j = some c₀ ∧ c₀.arena.get? id = some b₀ ∧ b.blank = b₀.blank := by
  rcases outcome_of_perform h with ⟨k, c, hc, houtcome⟩ | ⟨-, -, hcontexts⟩
  · exact houtcome.get?_of_lt hc hid hj hb
  · rcases hcontexts hj with hold | ⟨-, hempty⟩
    · exact ⟨c', b, hold, hb, rfl⟩
    · simp [hempty] at hb

/-- Context `k` was built with the settings of `c₀`, and there the name `id` has been given to the buffer `b`: as long
as both are there, they are the same but for what has been written. -/
structure Names (s : Session) (k : Nat) (c₀ : Context) (id : BufferId) (b : Buffer) : Prop where
  built : k < s.contexts.length
  given : id < s.resources.nextBuffer
  settings_eq : ∀ {c}, s.context? k = some c → c.settings = c₀.settings
  blank_eq : ∀ {c b'}, s.context? k = some c → c.arena.get? id = some b' → b'.blank = b.blank

theorem Names.perform {c₀ : Context} (h : s.Names k c₀ id b) {e : Event} (hstep : s.perform e = some s') :
    s'.Names k c₀ id b := by
  obtain ⟨hbuilt, hsettings⟩ := settings_of_perform hstep h.built
  refine ⟨hbuilt, h.given.trans_le (nextBuffer_le_of_perform hstep), fun hc' => ?_, fun hc' hb' => ?_⟩
  · obtain ⟨c, hc, heq⟩ := hsettings hc'
    exact heq.trans (h.settings_eq hc)
  · obtain ⟨c, b₀, hc, hb₀, heq⟩ := get?_of_perform hstep h.given hc' hb'
    exact heq.trans (h.blank_eq hc hb₀)

theorem Names.performAll {c₀ : Context} (h : s.Names k c₀ id b) {events : List Event}
    (hs : s.performAll events = some s') : s'.Names k c₀ id b := by
  induction events generalizing s with
  | nil =>
    obtain rfl := Option.some.inj hs
    exact h
  | cons e events ih =>
    obtain ⟨s₁, hstep, hs⟩ := Option.bind_eq_some_iff.1 hs
    exact ih (h.perform hstep) hs

end Session

end StridedTensor
