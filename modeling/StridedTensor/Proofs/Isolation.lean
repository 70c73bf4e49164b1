import StridedTensor.Proofs.Retirement

/-!
# Contexts apart from each other

What happens in one context leaves every other context as it is (`Session.Run.isolates`): its buffers with all their
bytes, what its allocator has on its books, and the tensors that own its memory. A context gets nothing out of a tensor
of another one: it does not hold the buffer, so every access is denied (`Workspace.Withholds`). For any number of events
elsewhere the context itself stays the same (`Session.context?_of_elsewhere`).
-/

namespace StridedTensor

/-! ### Allocators of other contexts -/

namespace Resources

variable {r : Resources} {id j : AllocatorId}

private theorem allocator_setAllocator_of_ne (a : Allocator) (hj : j ≠ id) :
    (r.setAllocator id a).allocator j = r.allocator j := by
  unfold allocator setAllocator
  rw [List.getD_eq_getElem?_getD, List.getD_eq_getElem?_getD, List.getElem?_set_ne fun h => hj h.symm]

end Resources

/-- A buffer goes back to the allocator that it came from. -/
private theorem Buffer.allocator_dispose {b : Buffer} {j : AllocatorId} (hj : b.origin ≠ .owned j) (r : Resources) :
    (b.dispose r).allocator j = r.allocator j := by
  unfold dispose
  split
  · rename_i id hid
    exact Resources.allocator_setAllocator_of_ne _ fun h => hj (h ▸ hid)
  · rfl

private theorem Arena.allocator_disposeAll {a : Arena} {j : AllocatorId} (hj : ∀ b ∈ a.values, b.origin ≠ .owned j)
    (r : Resources) : (a.disposeAll r).allocator j = r.allocator j := by
  unfold disposeAll
  generalize a.values = bs at hj
  induction bs generalizing r with
  | nil => rfl
  | cons b bs ih =>
    have hrest := ih (b.dispose r) fun b' hb' => hj b' (List.mem_cons_of_mem b hb')
    rw [List.foldl_cons, hrest, Buffer.allocator_dispose (hj b List.mem_cons_self)]

namespace Workspace

variable {n : BufferId} {w w' : Workspace} {j : AllocatorId}

/-- What a context holds is not from the allocators of other contexts. -/
private theorem Placed.origin_ne (h : Placed w) (hj : j ≠ w.context.allocator) {b : Buffer}
    (hb : b ∈ w.context.arena.values) :
    b.origin ≠ .owned j := fun horigin => hj (h.origin hb horigin)

private theorem allocator_of_dispose (h : Placed w) (hj : j ≠ w.context.allocator) (id : BufferId) :
    (w.dispose id).resources.allocator j = w.resources.allocator j := by
  cases hget : w.context.arena.get? id with
  | none => rw [dispose_of_get?_none hget]
  | some b =>
    have hmem : b ∈ w.context.arena.values := (perm_values_dispose hget).mem_iff.2 List.mem_cons_self
    rw [resources_dispose hget, Buffer.allocator_dispose (h.origin_ne hj hmem)]

private theorem Effect.allocator_eq (hstep : Effect n w w') (h : Placed w) (hj : j ≠ w.context.allocator) :
    w'.resources.allocator j = w.resources.allocator j := by
  cases hstep with
  | write | lend => rfl
  | refuse failed =>
    rcases Buffer.allocate_eq_error failed with rfl | ⟨-, rfl⟩
    · rfl
    · exact Resources.allocator_setAllocator_of_ne _ hj
  | make made =>
    obtain ⟨_, -, -, -, -, rfl⟩ := Buffer.allocate_eq_ok made
    exact Resources.allocator_setAllocator_of_ne _ hj
  | wrap address contents device lent made =>
    subst lent
    rfl
  | dispose => exact allocator_of_dispose h hj _

private theorem Effects.allocator_eq (hsteps : Effects n w w') (h : Placed w) (hj : j ≠ w.context.allocator) :
    w'.resources.allocator j = w.resources.allocator j := by
  induction hsteps with
  | refl => rfl
  | tail hsteps hstep ih =>
    have hsame := (Effects.grows hsteps).allocator
    exact (hstep.allocator_eq (Effects.placed hsteps h) (hsame.symm ▸ hj)).trans ih

end Workspace

/-- The handle under which a command puts a new tensor. -/
def Command.out? : Command → Option Handle
  | .null out _ _ _ | .alloc out _ _ _ | .ofList out _ _ _ _ | .ofScalar out _ _ | .wrap out _ _ _ _ _
  | .contiguous out _ | .toDevice out _ _ | .view out _ _ => some out
  | _ => none

namespace Session

open Workspace

variable {s s' : Session} {k j : Nat} {c : Context} {command : Command} {reply : Result Reply} {x : Handle}

theorem Outcome.context?_of_ne (hc : s.context? k = some c) (h : Outcome s k c s') (hjk : j ≠ k) :
    s'.context? j = s.context? j := by
  have hset : ∀ w, (s.setWorkspace k w).context? j = s.context? j := fun w => by
    rw [context?_setWorkspace hc, if_neg hjk]
  cases h with
  | read | keep | derive => rfl
  | act | yield | release | detach => exact hset _
  | drop => rw [context?_set_none, if_neg hjk]

theorem Outcome.allocator_of_ne (hplaced : Workspace.Placed ⟨c, s.resources⟩) (h : Outcome s k c s') {a : AllocatorId}
    (ha : a ≠ c.allocator) : s'.resources.allocator a = s.resources.allocator a := by
  cases h with
  | read | keep | derive => rfl
  | act effects | yield effects yields => exact effects.allocator_eq hplaced ha
  | @release _ _ id | @detach id _ => exact allocator_of_dispose hplaced ha id
  | drop => exact Arena.allocator_disposeAll (fun b hb => hplaced.origin_ne ha hb) _

/-! ### Tensors of other contexts -/

private theorem tensor?_bindResult {out : Handle} (hx : x ≠ out) (o : Result Tensor × Workspace) :
    (s.bindResult k out o).2.tensor? x = s.tensor? x := by
  obtain ⟨r, w⟩ := o
  cases r with
  | ok t => exact (tensor?_bind _ _ _ _).trans (if_neg hx)
  | error e => rfl

private theorem tensor?_readBack {r : Resources} {t : Tensor} (o : Result Unit × Context) :
    (s.readBack k r t o).2.tensor? x = s.tensor? x := by
  obtain ⟨result, c'⟩ := o
  cases result <;> rfl

/-- Besides the handle of a new tensor, only that of a released one gets another tensor. -/
private theorem tensor?_of_step (hc : s.context? k = some c) (h : s.step k command = some (reply, s'))
    (hout : command.out? ≠ some x) :
    s'.tensor? x = s.tensor? x ∨ command = .release x ∧ ∃ t, s.tensor? x = some t ∧
      s'.tensor? x = some (Workspace.release ⟨c, s.resources⟩ t).1 := by
  unfold step at h
  simp only [hc, Option.bind_eq_bind, Option.bind_some, Option.pure_def] at h
  have hne : ∀ {out}, some out ≠ some x → x ≠ out := fun hout e => hout (e ▸ rfl)
  cases command
  all_goals simp only [Option.bind_eq_some_iff, Option.some.injEq] at h
  case null | alloc | ofList | ofScalar | wrap =>
    obtain rfl := congrArg Prod.snd h
    exact .inl (tensor?_bindResult (hne hout) _)
  case contiguous | toDevice | view =>
    obtain ⟨_, -, h⟩ := h
    obtain rfl := congrArg Prod.snd h
    exact .inl (tensor?_bindResult (hne hout) _)
  case set | fill | kernel =>
    obtain ⟨_, -, h⟩ := h
    obtain rfl := congrArg Prod.snd h
    exact .inl (tensor?_readBack _)
  case copy =>
    obtain ⟨_, -, _, -, h⟩ := h
    obtain rfl := congrArg Prod.snd h
    exact .inl (tensor?_readBack _)
  case release y =>
    obtain ⟨t, ht, h⟩ := h
    obtain rfl := congrArg Prod.snd h
    by_cases hx : x = y
    · subst hx
      exact .inr ⟨rfl, t, ht, (tensor?_bind _ _ _ _).trans (if_pos rfl)⟩
    · exact .inl ((tensor?_bind _ _ _ _).trans (if_neg hx))
  case drop | context =>
    obtain rfl := congrArg Prod.snd h
    exact .inl rfl
  case pair =>
    obtain ⟨_, -, _, -, h⟩ := h
    obtain rfl := congrArg Prod.snd h
    exact .inl rfl
  all_goals
    obtain ⟨_, -, h⟩ := h
    obtain rfl := congrArg Prod.snd h
    exact .inl rfl

end Session

/-! ### The main statement -/

/-- Nothing can be done in the workspace with a tensor whose buffer another context holds: not even its owner is
released, and every access to its elements fails if there are any. -/
structure Workspace.Withholds (w : Workspace) (t : Tensor) : Prop where
  release : w.release t = (t, w)
  denies : t.Fits → w.context.Denies t
  contiguous : t.Fits → t.numel ≠ .ok 0 → ∃ e r, w.contiguous t = (Result.reject e, ⟨w.context, r⟩)

namespace Session

open Workspace

variable {s s' : Session} {k j : Nat} {c d : Context} {command : Command} {reply : Result Reply} {x : Handle}
  {id : BufferId} {t : Tensor} {home : BufferId → Option Nat}

/-- The session after a command in `c` has the context `d`, its allocator and the tensors that own its memory as they
were, unless a handle is used again. -/
structure Isolates (s : Session) (c : Context) (j : Nat) (d : Context) (command : Command) (s' : Session) : Prop where
  context : s'.context? j = some d
  allocator : d.allocator ≠ c.allocator → s'.resources.allocator d.allocator = s.resources.allocator d.allocator
  owner : ∀ {x t id}, s.tensor? x = some t → t.buffer = some id → d.arena.contains id = true →
    command.out? ≠ some x → s'.tensor? x = some t

private theorem withholds_of_gone {w : Workspace} (hid : t.buffer = some id) (hget : w.context.arena.get? id = none)
    (hold : id < w.resources.nextBuffer) (hfree : w.context.arena.get? w.resources.nextBuffer = none) :
    w.Withholds t where
  release := by
    have hgone : w.context.arena.contains id = false := Table.contains_eq_false.2 hget
    unfold Workspace.release Tensor.disown
    cases howner : t.ownership with
    | true => simp only [hid, Option.any_some, hgone, Bool.not_false, Bool.and_self, if_true]
    | false => simp only [Bool.false_and, hid, Option.any_some, Bool.false_eq_true, if_false]
  denies hfits := Context.Stale.denies ⟨id, hid, hget⟩ hfits
  contiguous hfits hne := by
    rcases contiguous_of_stale hid hget hfits hold hfree with ⟨e, r, hreject, -⟩ | ⟨hempty, -⟩
    · exact ⟨e, r, hreject⟩
    · exact absurd hempty hne

theorem Coherent.withholds (h : Coherent home s) (hk : s.context? k = some c) (hj : s.context? j = some d)
    (hjk : j ≠ k) (hid : t.buffer = some id) (hheld : d.arena.contains id = true) :
    Withholds ⟨c, s.resources⟩ t := by
  refine withholds_of_gone hid (h.gone_elsewhere hj hheld hk fun e => hjk e.symm) (h.named (h.held hj hheld)).1 ?_
  exact Table.contains_eq_false.1 (by
    rw [← Bool.not_eq_true]
    intro hnext
    exact Nat.lt_irrefl _ (h.named (h.held hk hnext)).1)

/-- Whatever is done in one context, another one stays as it is, and its memory stays with it. -/
theorem Run.isolates (h : Run home s) (hk : s.context? k = some c) (hj : s.context? j = some d) (hjk : j ≠ k) :
    (∀ {command reply s'}, s.step k command = some (reply, s') → s.Isolates c j d command s') ∧
      ∀ {t id}, t.buffer = some id → d.arena.contains id = true → Withholds ⟨c, s.resources⟩ t := by
  have hcoherent := h.coherent
  refine ⟨fun {command reply s'} hstep => ?_, fun hid hheld => hcoherent.withholds hk hj hjk hid hheld⟩
  have houtcome := step_outcome hk hstep
  refine ⟨(houtcome.context?_of_ne hk hjk).trans hj, fun ha => ?_, fun {x t id} ht hid hheld hout => ?_⟩
  · exact houtcome.allocator_of_ne (h.placed.workspace hcoherent hk) ha
  · rcases tensor?_of_step hk hstep hout with hsame | ⟨-, u, hu, hreleased⟩
    · exact hsame.trans ht
    · obtain rfl : u = t := Option.some.inj (hu.symm.trans ht)
      rw [hreleased, (hcoherent.withholds hk hj hjk hid hheld).release]

/-! ### An owner that is handed to the wrong context -/

/-- Two contexts with an allocator each. A tensor of the first one and a view of it, and a tensor of the second one. -/
def twoLedgers : List Event := [.register "first" .system true, .register "second" .system true,
  .build { allocator := some 1 }, .build { allocator := some 2, strict := false },
  .command 0 (.ofList "t" .f32 [0x3f800000#32, 0x40000000#32] [2] .cpu), .command 0 (.view "v" "t" (.slice 0 1 2)),
  .command 1 (.alloc "o" [1] .f32 .cpu)]

theorem twoLedgers_isolates : ∃ s c d t v reply s', initial.performAll twoLedgers = some s ∧ s.context? 1 = some c ∧
    s.context? 0 = some d ∧ s.tensor? "t" = some t ∧ s.tensor? "v" = some v ∧ d.allocator ≠ c.allocator ∧
    s.step 1 (.release "t") = some (reply, s') ∧ s.Isolates c 0 d (.release "t") s' ∧ t.ownership = true ∧
    s'.tensor? "t" = some t ∧ v.numel ≠ .ok 0 ∧ v.Fits ∧ Withholds ⟨c, s.resources⟩ v := by
  obtain ⟨s, hs⟩ : ∃ s, initial.performAll twoLedgers = some s := Option.isSome_iff_exists.1 rfl
  have hfirst : ((initial.performAll twoLedgers).bind (·.context? 0)).map (fun d =>
      (d.allocator, d.arena.contains 0)) = some (1, true) := rfl
  have hsecond : ((initial.performAll twoLedgers).bind (·.context? 1)).map (·.allocator) = some 2 := rfl
  have howner : ((initial.performAll twoLedgers).bind (·.tensor? "t")).map (fun t => (t.buffer, t.ownership)) =
      some (some 0, true) := rfl
  have hview : ((initial.performAll twoLedgers).bind (·.tensor? "v")).map (fun v =>
      (v.buffer, v.numel, v.nbytes, v.span)) = some (some 0, .ok 1, .ok 4, .ok ⟨4, 8⟩) := rfl
  have hrelease : ((initial.performAll twoLedgers).bind (·.step 1 (.release "t"))).isSome = true := rfl
  simp only [hs, Option.bind_some] at hfirst hsecond howner hview hrelease
  obtain ⟨d, hd, hfirst⟩ := Option.map_eq_some_iff.1 hfirst
  obtain ⟨c, hc, hsecond⟩ := Option.map_eq_some_iff.1 hsecond
  obtain ⟨t, ht, howner⟩ := Option.map_eq_some_iff.1 howner
  obtain ⟨v, hv, hview⟩ := Option.map_eq_some_iff.1 hview
  obtain ⟨⟨reply, s'⟩, hstep⟩ := Option.isSome_iff_exists.1 hrelease
  simp only [Prod.mk.injEq] at hfirst howner hview
  obtain ⟨hallocator, hheld⟩ := hfirst
  obtain ⟨hbuffer, howned⟩ := howner
  obtain ⟨hid, hnumel, hnbytes, hspan⟩ := hview
  obtain ⟨home, hrun⟩ := Run.initial.performAll hs
  obtain ⟨hisolates, hwithholds⟩ := hrun.isolates hc hd (by decide)
  have hafter := hisolates hstep
  exact ⟨s, c, d, t, v, reply, s', hs, hc, hd, ht, hv, by simp [hallocator, hsecond], hstep, hafter, howned,
    hafter.owner ht hbuffer hheld (by simp [Command.out?]), by simp [hnumel],
    ⟨⟨_, hnumel⟩, ⟨_, hnbytes⟩, ⟨_, hspan⟩⟩, hwithholds hid hheld⟩

/-! ### Many events -/

/-- No number of events elsewhere changes a context. -/
theorem context?_of_elsewhere {events : List Event} (hj : s.context? j = some d)
    (helsewhere : ∀ k command, Event.command k command ∈ events → k ≠ j) (hs : s.performAll events = some s') :
    s'.context? j = some d := by
  induction events generalizing s with
  | nil =>
    obtain rfl := Option.some.inj hs
    exact hj
  | cons e events ih =>
    obtain ⟨s₁, hstep, hs⟩ := Option.bind_eq_some_iff.1 hs
    refine ih ?_ (fun k command hmem => helsewhere k command (List.mem_cons_of_mem _ hmem)) hs
    cases e with
    | register name provider tracked =>
      obtain rfl := Option.some.inj hstep
      exact hj
    | setDefault id =>
      simp only [perform, Option.ite_none_right_eq_some, Option.some.injEq] at hstep
      obtain ⟨-, rfl⟩ := hstep
      exact hj
    | build options =>
      simp only [perform, Option.ite_none_right_eq_some, Option.some.injEq] at hstep
      obtain ⟨-, rfl⟩ := hstep
      rw [context?_build, if_neg (Nat.ne_of_lt (lt_of_context? hj))]
      exact hj
    | command k command =>
      obtain ⟨⟨reply, s₂⟩, hrun, rfl⟩ := Option.map_eq_some_iff.1 hstep
      obtain ⟨c, hc⟩ := context?_of_step hrun
      have hne := helsewhere k command List.mem_cons_self
      exact ((step_outcome hc hrun).context?_of_ne hc fun e => hne e.symm).trans hj

end Session

end StridedTensor
