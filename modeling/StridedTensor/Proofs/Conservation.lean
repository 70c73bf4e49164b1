import StridedTensor.Proofs.Exchange
import StridedTensor.Proofs.Ledger

/-!
# Conservation of memory

In every session that can come about, the blocks that are live with an allocator are the buffers from it that contexts
hold (`Session.Run.conserves`). Operations that fail halfway give back what they took, and the end of a context gives
back the rest. Each exchange of memory moves blocks between one allocator and the buffers that are held, and keeps the
accounts of all allocators (`Exchange.balanced`).
-/

namespace StridedTensor

/-! ### Buffers and blocks -/

namespace Buffer

/-- What the allocator of the buffer knows of it. -/
def block (b : Buffer) : Block := (b.address, ⟨b.size, b.alignment, b.device⟩)

def isFrom (id : AllocatorId) (b : Buffer) : Bool := b.origin == .owned id

@[simp] theorem block_blank (b : Buffer) : b.blank.block = b.block := by simp [block, blank, size]

private theorem isFrom_eq_true {id : AllocatorId} {b : Buffer} : b.isFrom id = true ↔ b.origin = .owned id := beq_iff_eq

private theorem isOwned_eq_true {b : Buffer} : b.isOwned = true ↔ ∃ id, b.origin = .owned id := by
  unfold isOwned
  cases b.origin <;> simp

end Buffer

def blocksFrom (id : AllocatorId) (buffers : List Buffer) : List Block := (buffers.filter (·.isFrom id)).map Buffer.block

section Blocks

variable {id : AllocatorId} {b : Buffer} {buffers buffers' : List Buffer}

private theorem blocksFrom_cons_of_owned (h : b.origin = .owned id) :
    blocksFrom id (b :: buffers) = b.block :: blocksFrom id buffers := by
  unfold blocksFrom
  rw [List.filter_cons_of_pos (Buffer.isFrom_eq_true.2 h), List.map_cons]

private theorem blocksFrom_cons_of_ne (h : b.origin ≠ .owned id) :
    blocksFrom id (b :: buffers) = blocksFrom id buffers := by
  unfold blocksFrom
  rw [List.filter_cons_of_neg fun hb => h (Buffer.isFrom_eq_true.1 hb)]

private theorem blocksFrom_perm (id : AllocatorId) (h : buffers.Perm buffers') :
    (blocksFrom id buffers).Perm (blocksFrom id buffers') := (h.filter _).map _

private theorem blocksFrom_blank (id : AllocatorId) (buffers : List Buffer) :
    blocksFrom id (buffers.map Buffer.blank) = blocksFrom id buffers := by
  have hfrom : (fun b : Buffer => b.isFrom id) ∘ Buffer.blank = fun b => b.isFrom id := rfl
  unfold blocksFrom
  rw [List.filter_map, hfrom, List.map_map]
  exact List.map_congr_left fun b _ => b.block_blank

end Blocks

/-! ### Resources -/

namespace Resources

variable {r r' : Resources} {id : AllocatorId} {b : Buffer} {buffers buffers' : List Buffer}

theorem allocator_setAllocator (hid : id < r.allocators.length) (a : Allocator) (j : AllocatorId) :
    (r.setAllocator id a).allocator j = if j = id then a else r.allocator j := by
  unfold allocator setAllocator
  by_cases h : j = id
  · subst h
    simp [hid]
  · simp only [List.getD_eq_getElem?_getD]
    rw [List.getElem?_set_ne fun e => h e.symm, if_neg h]

/-- For each allocator whose answers are fresh, its blocks are those of the given buffers. -/
def Accounts (r : Resources) (buffers : List Buffer) : Prop :=
  ∀ id < r.allocators.length, (r.allocator id).provider.Fresh → (r.allocator id).Accounts (blocksFrom id buffers)

/-- Neither the order of the buffers matters nor their bytes. -/
private theorem Accounts.blank (h : r.Accounts buffers)
    (hb : (buffers'.map Buffer.blank).Perm (buffers.map Buffer.blank)) :
    r.Accounts buffers' := fun id hid hfresh => by
  have hperm := blocksFrom_perm id hb.symm
  rw [blocksFrom_blank, blocksFrom_blank] at hperm
  exact (h id hid hfresh).perm hperm

/-- Only one allocator changes, and the blocks of the others stay the same. -/
private theorem Accounts.setAllocator (h : r.Accounts buffers) (hid : id < r.allocators.length) {a : Allocator}
    (hother : ∀ j, j ≠ id → blocksFrom j buffers' = blocksFrom j buffers)
    (ha : a.provider.Fresh → a.Accounts (blocksFrom id buffers')) : (r.setAllocator id a).Accounts buffers' := by
  intro j hj hfresh
  rw [length_allocators_setAllocator] at hj
  rw [allocator_setAllocator hid] at hfresh ⊢
  by_cases hji : j = id
  · subst hji
    rw [if_pos rfl] at hfresh ⊢
    exact ha hfresh
  · rw [if_neg hji] at hfresh ⊢
    rw [hother j hji]
    exact h j hj hfresh

private theorem Accounts.refuse (h : r.Accounts buffers) (hid : id < r.allocators.length) {size alignment : Nat}
    {device : Device} {e : AllocError} (hr : Buffer.allocate r id size alignment device = (.error e, r')) :
    r'.Accounts buffers := by
  rcases Buffer.allocate_eq_error hr with rfl | ⟨hanswer, rfl⟩
  · exact h
  · exact h.setAllocator hid (fun _ _ => rfl) fun hfresh => (h id hid hfresh).refuse hanswer

private theorem Accounts.make (h : r.Accounts buffers) (hid : id < r.allocators.length) {size alignment : Nat}
    {device : Device} (hr : Buffer.allocate r id size alignment device = (.ok b, r')) :
    b.origin = .owned id ∧ r'.Accounts (b :: buffers) := by
  obtain ⟨address, hanswer, -, -, rfl, rfl⟩ := Buffer.allocate_eq_ok hr
  refine ⟨rfl, h.setAllocator hid (fun j hj => blocksFrom_cons_of_ne fun horigin => ?_) fun hfresh => ?_⟩
  · exact hj (Origin.owned.inj horigin).symm
  · rw [blocksFrom_cons_of_owned rfl]
    have hblock : Buffer.block ⟨address, Array.replicate size 0, alignment, device, .owned id⟩ =
        (address, ⟨size, alignment, device⟩) := by simp [Buffer.block, Buffer.size]
    rw [hblock]
    exact (h id hid hfresh).allocate hfresh hanswer

/-- What is lent goes back without any allocator knowing of it. -/
private theorem allocators_dispose_of_lent (hb : b.isOwned = false) (r : Resources) :
    (b.dispose r).allocators = r.allocators := by
  unfold Buffer.isOwned at hb
  unfold Buffer.dispose
  cases horigin : b.origin with
  | owned id => simp [horigin] at hb
  | foreign memory => rfl

private theorem Accounts.dispose (h : r.Accounts (b :: buffers))
    (hb : ∀ id, b.origin = .owned id → id < r.allocators.length) :
    (b.dispose r).Accounts buffers := by
  cases horigin : b.origin with
  | owned id =>
    have hid := hb id horigin
    unfold Buffer.dispose
    simp only [horigin]
    refine h.setAllocator hid (fun j hj => (blocksFrom_cons_of_ne fun hor => ?_).symm) fun hfresh => ?_
    · rw [horigin] at hor
      exact hj (Origin.owned.inj hor).symm
    · rw [Allocator.provider_free] at hfresh
      have hblocks := h id hid hfresh
      rw [blocksFrom_cons_of_owned horigin] at hblocks
      exact hblocks.free
  | foreign memory =>
    unfold Buffer.dispose
    simp only [horigin]
    intro j hj hfresh
    have hblocks := h j hj hfresh
    rwa [blocksFrom_cons_of_ne (by simp [horigin])] at hblocks

end Resources

/-! ### Exchanges -/

/-- Buffers come from allocators that there are, and account for what these have given out. -/
structure Holdings.Balanced (x : Holdings) : Prop where
  known : ∀ b ∈ x.2, ∀ id, b.origin = .owned id → id < x.1.allocators.length
  accounts : x.1.Accounts x.2

theorem Holdings.balanced_initial : Balanced (.initial, []) where
  known b hb := by simp at hb
  accounts id hid _ := by
    obtain rfl : id = 0 := by
      have : id < 1 := hid
      lia
    exact Allocator.accounts_new "system" .system false

namespace Holdings.Balanced

variable {r : Resources} {bs : List Buffer}

private theorem make (h : Balanced (r, bs)) {r' : Resources} {id : AllocatorId} {size alignment : Nat} {device : Device}
    {b : Buffer} (known : id < r.allocators.length)
    (made : Buffer.allocate r id size alignment device = (.ok b, r')) : Balanced (r', b :: bs) := by
  obtain ⟨horigin, haccounts⟩ := h.accounts.make known made
  obtain ⟨_, -, -, -, -, rfl⟩ := Buffer.allocate_eq_ok made
  refine ⟨fun b' hb' j hj => ?_, haccounts⟩
  rw [Resources.length_allocators_setAllocator]
  rcases List.mem_cons.1 hb' with rfl | hb'
  · obtain rfl := Origin.owned.inj (horigin.symm.trans hj)
    exact known
  · exact h.known b' hb' j hj

private theorem register (h : Balanced (r, bs)) (name : String) (provider : Provider) (tracked : Bool) :
    Balanced ((r.register ⟨name, provider, [], if tracked then some .empty else none⟩).2, bs) := by
  have hlen : ∀ a, (r.register a).2.allocators.length = r.allocators.length + 1 := fun a => List.length_append
  refine ⟨fun b hb id hid => ?_, fun id hid hfresh => ?_⟩
  · rw [hlen]
    exact Nat.lt_succ_of_lt (h.known b hb id hid)
  · rw [hlen] at hid
    by_cases hold : id < r.allocators.length
    · have hsame : ∀ a, (r.register a).2.allocator id = r.allocator id := fun a => by
        simp only [Resources.allocator, Resources.register, List.getD_eq_getElem?_getD]
        rw [List.getElem?_append_left hold]
      rw [hsame] at hfresh ⊢
      exact h.accounts id hold hfresh
    · -- the new allocator has given nothing out
      obtain rfl : id = r.allocators.length := by lia
      have hnone : blocksFrom r.allocators.length bs = [] := by
        unfold blocksFrom
        rw [List.map_eq_nil_iff, List.filter_eq_nil_iff]
        intro b hb hfrom
        have hlt := h.known b hb _ (Buffer.isFrom_eq_true.1 hfrom)
        lia
      have hnew : ∀ a, (r.register a).2.allocator r.allocators.length = a := fun a => by
        simp [Resources.allocator, Resources.register]
      rw [hnew, hnone]
      exact Allocator.accounts_new name provider tracked

end Holdings.Balanced

theorem Exchange.balanced {x y : Holdings} (hstep : Exchange x y) (h : x.Balanced) : y.Balanced := by
  cases hstep with
  | @write r bs bs' same =>
    refine ⟨fun b hb id hid => ?_, h.accounts.blank same⟩
    obtain ⟨b₀, hb₀, hsame⟩ := List.mem_map.1 (same.mem_iff.1 (List.mem_map_of_mem hb))
    exact h.known b₀ hb₀ id ((congrArg (·.origin) hsame).trans hid)
  | refuse known failed =>
    refine ⟨fun b hb id hid => ?_, h.accounts.refuse known failed⟩
    have hlt := h.known b hb id hid
    rcases Buffer.allocate_eq_error failed with rfl | ⟨-, rfl⟩
    · exact hlt
    · rwa [Resources.length_allocators_setAllocator]
  | make known made => exact h.make known made
  | lend | other => exact ⟨h.known, h.accounts⟩
  | @wrap r bs address contents device =>
    refine ⟨fun b hb id hid => ?_, fun id hid hfresh => ?_⟩
    · rcases List.mem_cons.1 hb with rfl | hb
      · simp [Buffer.foreign] at hid
      · exact h.known b hb id hid
    · rw [blocksFrom_cons_of_ne (by simp [Buffer.foreign])]
      exact h.accounts id hid hfresh
  | @dispose r b bs =>
    refine ⟨fun b' hb' id hid => ?_, h.accounts.dispose (h.known b List.mem_cons_self)⟩
    rw [Buffer.length_allocators_dispose]
    exact h.known b' (List.mem_cons_of_mem _ hb') id hid
  | register name provider tracked => exact h.register name provider tracked

theorem Exchanges.balanced {x y : Holdings} (hsteps : Exchanges x y) (h : x.Balanced) : y.Balanced := by
  induction hsteps with
  | refl => exact h
  | tail _ step ih => exact step.balanced ih

/-! ### Sessions -/

/-- Whether memory is lent or taken back. -/
def Command.isLoan : Command → Bool
  | .wrap .. | .detach _ => true
  | _ => false

namespace Session

open Workspace

variable {s s' : Session} {id : AllocatorId} {home : BufferId → Option Nat}

/-- The buffers that the contexts hold which captured the given allocator, other than those that callers lent. -/
def held (s : Session) (id : AllocatorId) : List Buffer :=
  s.contexts.flatMap fun c => c.elim [] fun c => if c.allocator = id then c.arena.values.filter (·.isOwned) else []

/-- Filtered by their origin, the buffers of all contexts are those of the contexts with that allocator. -/
theorem Placed.held_eq (h : Placed s) (id : AllocatorId) : s.held id = s.buffers.filter (·.isFrom id) := by
  unfold held buffers
  rw [List.filter_flatMap]
  refine List.flatMap_congr fun c hmem => ?_
  cases c with
  | none => rfl
  | some c =>
    obtain ⟨k, hk⟩ := List.mem_iff_getElem?.1 hmem
    have hc : s.context? k = some c := by simp [context?, hk]
    simp only [Option.elim_some]
    by_cases hid : c.allocator = id
    · rw [if_pos hid]
      refine List.filter_congr fun b hb => ?_
      rw [Bool.eq_iff_iff, Buffer.isOwned_eq_true, Buffer.isFrom_eq_true]
      constructor
      · rintro ⟨j, hj⟩
        rw [hj, h.origin hc hb hj, hid]
      · exact fun hj => ⟨id, hj⟩
    · rw [if_neg hid, eq_comm, List.filter_eq_nil_iff]
      intro b hb hfrom
      exact hid (h.origin hc hb (Buffer.isFrom_eq_true.1 hfrom)).symm

/-- Lending memory and taking it back leave the allocators alone, whether it succeeds or fails. -/
private theorem allocators_of_loan {command : Command} (hloan : command.isLoan = true) {reply : Result Reply}
    (h : s.step k command = some (reply, s')) : s'.resources.allocators = s.resources.allocators := by
  obtain ⟨c, hc⟩ := context?_of_step h
  unfold step at h
  simp only [hc, Option.bind_eq_bind, Option.bind_some, Option.pure_def] at h
  cases command <;> simp only [Command.isLoan, Bool.false_eq_true] at hloan
  case wrap out address contents extents type device =>
    obtain rfl := congrArg Prod.snd (Option.some.inj h)
    have hresources : ∀ o : Result Tensor × Workspace, (s.bindResult k out o).2.resources = o.2.resources := by
      rintro ⟨r, w⟩
      cases r <;> rfl
    rw [hresources]
    unfold Workspace.wrap
    simp only
    split
    · rfl
    · split
      · rfl
      · split <;> rfl
  case detach x =>
    simp only [Option.bind_eq_some_iff, Option.some.injEq] at h
    obtain ⟨t, -, h⟩ := h
    obtain rfl := congrArg Prod.snd h
    show (Workspace.detach ⟨c, s.resources⟩ t).2.resources.allocators = s.resources.allocators
    unfold Workspace.detach
    split
    · rfl
    · split
      · rfl
      · rename_i b hb
        split
        · rfl
        · rename_i hlent
          show (Workspace.dispose ⟨c, s.resources⟩ _).resources.allocators = _
          rw [resources_dispose (w := ⟨c, s.resources⟩) hb]
          exact Resources.allocators_dispose_of_lent (by simpa using hlent) _

/-! ### Runs -/

/-- What the ledger `l` of the allocator `id` says is true of the session. -/
structure Conserves (s : Session) (id : AllocatorId) (l : Ledger) : Prop where
  /-- The buffers count that the contexts hold which captured the allocator, but for lent ones. -/
  live : l.live = (s.held id).length
  liveBytes : l.liveBytes = ((s.held id).map Buffer.size).sum
  balance : l.allocations = l.frees + l.live
  /-- The allocator has freed only what it had handed out itself, and was live then. -/
  history : (s.resources.allocator id).provider.History (s.resources.allocator id).calls
  counts : l.allocations = Provider.granted (s.resources.allocator id).calls ∧
    l.frees = Provider.freed (s.resources.allocator id).calls
  /-- No block was freed more often than it was handed out; the difference is what is live, and that is held. -/
  once : ∀ address request, (s.resources.allocator id).calls.count (.allocate request (some address)) =
    (s.resources.allocator id).calls.count (.free address request) +
      ((s.held id).map Buffer.block).count (address, request)
  /-- Each of the buffers goes back to the allocator in the end. -/
  origin : ∀ b ∈ s.held id, b.origin = .owned id
  /-- Without a context that captured the allocator all has been given back, whatever tensors there are. -/
  closed : (∀ k c, s.context? k = some c → c.allocator ≠ id) → l.live = 0 ∧ l.liveBytes = 0 ∧ l.frees = l.allocations
  /-- Lending memory and taking it back is no business of any allocator. -/
  loan : ∀ {k command reply s'}, command.isLoan = true → s.step k command = some (reply, s') →
    s'.resources.allocators = s.resources.allocators

/-- In every session that can come about, the ledger of an allocator is true to what contexts hold, if the allocator
never hands out an address that is live. -/
theorem Run.conserves (h : Run home s) {l : Ledger} (hl : (s.resources.allocator id).ledger = some l)
    (hfresh : (s.resources.allocator id).provider.Fresh) : Conserves s id l := by
  have hplaced := h.placed
  have hbalanced : Holdings.Balanced s.holdings := h.exchanges.balanced Holdings.balanced_initial
  have hid : id < s.resources.allocators.length := by
    by_contra hge
    have hsystem : s.resources.allocator id = .system := by
      rw [Resources.allocator, List.getD_eq_getElem?_getD, List.getElem?_eq_none (by lia)]
      rfl
    simp [hsystem, Allocator.system] at hl
  have hheld := hplaced.held_eq id
  have haccounts : (s.resources.allocator id).Accounts ((s.held id).map Buffer.block) := by
    rw [hheld]
    exact hbalanced.accounts id hid hfresh
  have hlists := haccounts.ledger l hl
  have hlive : l.live = (s.held id).length := hlists.live_eq.trans (List.length_map _)
  have hbytes : l.liveBytes = ((s.held id).map Buffer.size).sum := by
    rw [hlists.liveBytes_eq, List.map_map]
    rfl
  have hbalance : l.allocations = l.frees + l.live := by
    rw [hlists.allocations, hlists.frees, haccounts.history.granted_eq, haccounts.live.length_eq, hlive,
      List.length_map]
  refine ⟨hlive, hbytes, hbalance, haccounts.history, ⟨hlists.allocations, hlists.frees⟩,
    fun address request => ?_, fun b hb => ?_, fun hnone => ?_,
    fun hloan hstep => allocators_of_loan hloan hstep⟩
  · rw [haccounts.history.count_eq, haccounts.live.count_eq]
  · rw [hheld, List.mem_filter] at hb
    exact Buffer.isFrom_eq_true.1 hb.2
  · have hempty : s.held id = [] := by
      rw [List.eq_nil_iff_forall_not_mem]
      intro b hb
      rw [hheld, List.mem_filter] at hb
      obtain ⟨k, c, hc, hmem⟩ := mem_buffers.1 hb.1
      exact hnone k c hc (hplaced.origin hc hmem (Buffer.isFrom_eq_true.1 hb.2)).symm
    rw [hempty] at hlive hbytes
    have hzero : l.live = 0 := hlive
    exact ⟨hzero, hbytes, by omega⟩

/-! ### Two contexts that share an allocator -/

/-- The first context captures the default allocator, which then changes. The second one ends while the client still
has a tensor of it. -/
def sharedAllocator : List Event := [.register "tracking" .system true, .setDefault 1, .build {}, .setDefault 0,
  .build { allocator := some 1 }, .command 0 (.alloc "a" [2, 3] .f32 .cpu), .command 1 (.alloc "b" [4] .f64 .cpu),
  .command 1 (.wrap "c" 65536 (Array.replicate 8 0) [2] .f32 .cpu), .command 1 .drop]

example : (initial.performAll sharedAllocator).map (fun s => ((s.held 1).map Buffer.size, (s.tensor? "b").isSome)) =
    some ([24], true) := by rfl

theorem sharedAllocator_conserves : ∃ s l, initial.performAll sharedAllocator = some s ∧
    (s.resources.allocator 1).ledger = some l ∧ (s.resources.allocator 1).provider.Fresh ∧ Conserves s 1 l := by
  obtain ⟨s, hs⟩ : ∃ s, initial.performAll sharedAllocator = some s := Option.isSome_iff_exists.1 rfl
  have hledger : ((initial.performAll sharedAllocator).bind (·.resources.allocator 1 |>.ledger)).isSome = true := rfl
  have hprovider : (initial.performAll sharedAllocator).map (·.resources.allocator 1 |>.provider) = some .system := rfl
  rw [hs, Option.bind_some] at hledger
  rw [hs, Option.map_some, Option.some.injEq] at hprovider
  obtain ⟨l, hl⟩ := Option.isSome_iff_exists.1 hledger
  have hfresh : (s.resources.allocator 1).provider.Fresh := by
    rw [hprovider]
    exact Provider.fresh_system
  obtain ⟨home, hrun⟩ := Run.initial.performAll hs
  exact ⟨s, l, hs, hl, hfresh, hrun.conserves hl hfresh⟩

end Session

end StridedTensor
