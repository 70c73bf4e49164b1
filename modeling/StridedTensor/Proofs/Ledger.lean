import Mathlib.Algebra.Ring.Nat
import StridedTensor.Memory.Allocator
import StridedTensor.Proofs.Entries

/-!
# Accounts of allocators

The calls of an allocator tell which blocks are live (`liveBlocks`). They make up a history if every answer is that of
the provider and only live blocks are freed (`Provider.History`). In the accounts of an allocator (`Allocator.Accounts`)
the live blocks are given ones, and the ledger, if there is one, has an entry for each of them.

The accounts stay in order if the provider never hands out an address that is live (`Provider.Fresh`). Otherwise two
blocks would share one entry of the ledger.
-/

namespace StridedTensor

/-! ### Live blocks -/

abbrev Block := Address × Request

/-- The blocks that have been handed out and not been freed, the latest first. -/
def liveBlocks : List Call → List Block
  | [] => []
  | .allocate request (some address) :: calls => (address, request) :: liveBlocks calls
  | .allocate _ none :: calls => liveBlocks calls
  | .free address request :: calls => (liveBlocks calls).erase (address, request)

namespace Provider

def freed (calls : List Call) : Nat :=
  calls.countP fun
    | .free _ _ => true
    | _ => false

/-- An allocator with this provider can have made the calls: each answer is the provider's, and what is freed is live
at the time, so nothing is freed that was not handed out, and nothing twice. -/
inductive History (p : Provider) : List Call → Prop
  | start : History p []
  | allocate {calls : List Call} (history : History p calls) (request : Request) :
      History p (.allocate request (p calls request) :: calls)
  | free {calls : List Call} (history : History p calls) {address : Address} {request : Request}
      (live : (address, request) ∈ liveBlocks calls) : History p (.free address request :: calls)

/-- No address is handed out that is live. -/
def Fresh (p : Provider) : Prop :=
  ∀ {calls}, p.History calls → ∀ {request address}, p calls request = some address →
    ∀ other, (address, other) ∉ liveBlocks calls

variable {p : Provider} {calls : List Call}

@[simp] theorem granted_nil : granted [] = 0 := rfl

@[simp] theorem granted_some (request : Request) (address : Address) (calls : List Call) :
    granted (.allocate request (some address) :: calls) = granted calls + 1 := List.countP_cons_of_pos rfl

@[simp] theorem granted_none (request : Request) (calls : List Call) :
    granted (.allocate request none :: calls) = granted calls := List.countP_cons_of_neg (by simp)

@[simp] theorem granted_free (address : Address) (request : Request) (calls : List Call) :
    granted (.free address request :: calls) = granted calls := List.countP_cons_of_neg (by simp)

@[simp] theorem freed_nil : freed [] = 0 := rfl

@[simp] theorem freed_allocate (request : Request) (answer : Option Address) (calls : List Call) :
    freed (.allocate request answer :: calls) = freed calls := List.countP_cons_of_neg (by simp)

@[simp] theorem freed_free (address : Address) (request : Request) (calls : List Call) :
    freed (.free address request :: calls) = freed calls + 1 := List.countP_cons_of_pos rfl

theorem History.granted_eq (h : p.History calls) : granted calls = freed calls + (liveBlocks calls).length := by
  induction h with
  | start => rfl
  | @allocate calls _ request ih =>
    cases p calls request with
    | none => simpa [liveBlocks] using ih
    | some address =>
      simp only [granted_some, freed_allocate, liveBlocks, List.length_cons]
      omega
  | @free calls _ address request live ih =>
    have hpos := List.length_pos_of_mem live
    simp only [granted_free, freed_free, liveBlocks, List.length_erase_of_mem live]
    omega

/-- A block is handed out as often as it is freed and live. -/
theorem History.count_eq (h : p.History calls) (address : Address) (request : Request) :
    calls.count (.allocate request (some address)) =
      calls.count (.free address request) + (liveBlocks calls).count (address, request) := by
  induction h with
  | start => rfl
  | @allocate calls _ request' ih =>
    cases p calls request' with
    | none => simpa [liveBlocks, List.count_cons] using ih
    | some address' =>
      simp only [liveBlocks, List.count_cons, beq_iff_eq, Call.allocate.injEq, Option.some.injEq, Prod.mk.injEq,
        reduceCtorEq, if_false, Nat.add_zero, and_comm (a := request' = request)]
      omega
  | @free calls _ address' request' live ih =>
    have hpos := List.count_pos_iff.2 live
    simp only [liveBlocks, List.count_cons, List.count_erase, beq_iff_eq, Call.free.injEq, Prod.mk.injEq,
      reduceCtorEq, if_false, Nat.add_zero]
    split
    · rename_i heq
      obtain ⟨rfl, rfl⟩ := heq
      omega
    · omega

theorem History.exists_of_mem (h : p.History calls) {address : Address} {request : Request}
    (hlive : (address, request) ∈ liveBlocks calls) :
    .allocate request (some address) ∈ calls ∧ ∃ earlier, p earlier request = some address := by
  induction h with
  | start => simp [liveBlocks] at hlive
  | @allocate calls _ request' ih =>
    cases hanswer : p calls request' with
    | none =>
      rw [hanswer] at hlive
      obtain ⟨hmem, hearlier⟩ := ih hlive
      exact ⟨List.mem_cons_of_mem _ hmem, hearlier⟩
    | some address' =>
      rw [hanswer, liveBlocks, List.mem_cons] at hlive
      rcases hlive with heq | hlive
      · obtain ⟨rfl, rfl⟩ := Prod.mk.inj heq
        exact ⟨List.mem_cons_self, calls, hanswer⟩
      · obtain ⟨hmem, hearlier⟩ := ih hlive
        exact ⟨List.mem_cons_of_mem _ hmem, hearlier⟩
  | free _ _ ih =>
    obtain ⟨hmem, hearlier⟩ := ih (List.mem_of_mem_erase hlive)
    exact ⟨List.mem_cons_of_mem _ hmem, hearlier⟩

/-! ### The memory of the host -/

private theorem le_foldl_max (f : Call → Nat) (calls : List Call) (last : Nat) :
    last ≤ calls.foldl (fun last call => max last (f call)) last ∧
      ∀ call ∈ calls, f call ≤ calls.foldl (fun last call => max last (f call)) last := by
  induction calls generalizing last with
  | nil => simp
  | cons call calls ih =>
    obtain ⟨hlast, hall⟩ := ih (max last (f call))
    rw [List.foldl_cons]
    refine ⟨by omega, fun call' hmem => ?_⟩
    rcases List.mem_cons.1 hmem with rfl | hmem
    · omega
    · exact hall _ hmem

/-- Where a block that was handed out ends. -/
def stop : Call → Nat
  | .allocate request (some address) => address + request.size
  | _ => 0

private theorem top_eq (calls : List Call) : top calls = calls.foldl (fun last call => max last (stop call)) 4096 := by
  unfold top
  congr 1
  funext last call
  unfold stop
  split <;> simp

private theorem le_top {request : Request} {address : Address} (h : .allocate request (some address) ∈ calls) :
    address + request.size ≤ top calls := by
  rw [top_eq]
  exact (le_foldl_max stop calls 4096).2 _ h

private theorem pos_of_normalizeAlignment (alignment : Nat) : 0 < normalizeAlignment alignment := by
  unfold normalizeAlignment
  split
  · decide
  · split
    · rw [Nat.one_shiftLeft]
      exact Nat.two_pow_pos _
    · decide

private theorem system_eq_some {request : Request} {address : Address} (h : system calls request = some address) :
    0 < request.size ∧ top calls ≤ address := by
  unfold system at h
  simp only [Option.ite_none_left_eq_some, Option.some.injEq, not_or] at h
  obtain ⟨⟨hsize, -⟩, rfl⟩ := h
  refine ⟨Nat.pos_of_ne_zero hsize, ?_⟩
  -- rounding up to a multiple of the alignment
  have hpos := pos_of_normalizeAlignment request.alignment
  have hmod := Nat.mod_lt (top calls + normalizeAlignment request.alignment - 1) hpos
  have hdiv := Nat.div_add_mod' (top calls + normalizeAlignment request.alignment - 1) (normalizeAlignment request.alignment)
  lia

theorem fresh_system : system.Fresh := by
  intro calls hcalls request address hanswer other hlive
  obtain ⟨hmem, earlier, hearlier⟩ := hcalls.exists_of_mem hlive
  have hsize := (system_eq_some hearlier).1
  have htop := (system_eq_some hanswer).2
  have hle := le_top hmem
  lia

end Provider

/-! ### Ledgers -/

namespace Ledger

/-- The ledger has an entry for each of the given blocks, and no other, and it has counted the given calls. -/
structure Lists (l : Ledger) (calls : List Call) (blocks : List Block) : Prop where
  entries : l.blocks.entries.Perm (blocks.map fun block => (block.1, block.2.size))
  allocations : l.allocations = Provider.granted calls
  frees : l.frees = Provider.freed calls

variable {l : Ledger} {calls : List Call} {blocks blocks' : List Block}

theorem Lists.perm (h : l.Lists calls blocks) (hp : blocks.Perm blocks') : l.Lists calls blocks' :=
  ⟨h.entries.trans (hp.map _), h.allocations, h.frees⟩

theorem Lists.live_eq (h : l.Lists calls blocks) : l.live = blocks.length := by
  rw [live, Table.size, h.entries.length_eq, List.length_map]

theorem Lists.liveBytes_eq (h : l.Lists calls blocks) : l.liveBytes = (blocks.map fun block => block.2.size).sum := by
  have hvalues := (h.entries.map Prod.snd).sum_nat
  rw [List.map_map] at hvalues
  exact hvalues

theorem Lists.refuse (h : l.Lists calls blocks) (request : Request) :
    l.Lists (.allocate request none :: calls) blocks :=
  ⟨h.entries, h.allocations.trans (Provider.granted_none _ _).symm, h.frees.trans (Provider.freed_allocate _ _ _).symm⟩

theorem Lists.record (h : l.Lists calls blocks) (request : Request) {address : Address}
    (hnew : ∀ other, (address, other) ∉ blocks) :
    (l.record request.size (some address)).Lists (.allocate request (some address) :: calls)
      ((address, request) :: blocks) where
  entries := by
    have hget : l.blocks.get? address = none := by
      rw [Option.eq_none_iff_forall_ne_some]
      intro size hsize
      obtain ⟨block, hmem, heq⟩ := List.mem_map.1 (h.entries.mem_iff.1 (Table.get?_eq_some.1 hsize))
      obtain ⟨rfl, -⟩ := Prod.mk.inj heq
      exact hnew _ hmem
    show (l.blocks.insert address request.size).entries.Perm _
    rw [Table.entries_insert hget]
    exact List.perm_append_singleton _ _ |>.trans (h.entries.cons _)
  allocations := by
    rw [Provider.granted_some, ← h.allocations]
    rfl
  frees := by
    rw [Provider.freed_allocate, ← h.frees]
    rfl

/-- The request that a free comes with plays no part: the entry under the address goes. -/
theorem Lists.strike {address : Address} {request : Request} (h : l.Lists calls ((address, request) :: blocks))
    (named : Request) :
    ∃ l', l.strike? address = some l' ∧ l'.Lists (.free address named :: calls) blocks := by
  have hget : l.blocks.get? address = some request.size := by
    rw [Table.get?_eq_some, h.entries.mem_iff]
    exact List.mem_cons_self
  refine ⟨_, if_pos (Table.contains_eq_true.2 ⟨_, hget⟩), ?_, ?_, ?_⟩
  · exact ((Table.perm_erase hget).symm.trans h.entries).cons_inv
  · rw [Provider.granted_free, ← h.allocations]
  · rw [Provider.freed_free, ← h.frees]

end Ledger

/-! ### Accounts -/

namespace Allocator

/-- The given blocks are the live ones, in some order, and the ledger says so. -/
structure Accounts (a : Allocator) (blocks : List Block) : Prop where
  history : a.provider.History a.calls
  live : (liveBlocks a.calls).Perm blocks
  ledger : ∀ l, a.ledger = some l → l.Lists a.calls blocks

variable {a : Allocator} {blocks blocks' : List Block}

theorem accounts_new (name : String) (provider : Provider) (tracked : Bool) :
    Accounts ⟨name, provider, [], if tracked then some .empty else none⟩ [] := by
  refine ⟨.start, .nil, fun l hl => ?_⟩
  simp only [Option.ite_none_right_eq_some, Option.some.injEq] at hl
  obtain ⟨-, rfl⟩ := hl
  exact ⟨.nil, rfl, rfl⟩

theorem Accounts.perm (h : a.Accounts blocks) (hp : blocks.Perm blocks') : a.Accounts blocks' :=
  ⟨h.history, h.live.trans hp, fun l hl => (h.ledger l hl).perm hp⟩

@[simp] theorem provider_allocate (a : Allocator) (request : Request) :
    (a.allocate request).2.provider = a.provider := rfl

@[simp] theorem provider_free (a : Allocator) (address : Option Address) (request : Request) :
    (a.free address request).provider = a.provider := by
  unfold free
  split
  · rfl
  · split
    · rfl
    · split <;> rfl

theorem Accounts.refuse (h : a.Accounts blocks) {request : Request} (hanswer : (a.allocate request).1 = none) :
    (a.allocate request).2.Accounts blocks := by
  have hnone : a.provider a.calls request = none := hanswer
  have hhistory := h.history.allocate request
  unfold allocate
  simp only [hnone] at hhistory ⊢
  refine ⟨hhistory, h.live, fun l hl => ?_⟩
  obtain ⟨l₀, hl₀, rfl⟩ := Option.map_eq_some_iff.1 hl
  exact (h.ledger l₀ hl₀).refuse request

theorem Accounts.allocate (h : a.Accounts blocks) (hfresh : a.provider.Fresh) {request : Request} {address : Address}
    (hanswer : (a.allocate request).1 = some address) :
    (a.allocate request).2.Accounts ((address, request) :: blocks) := by
  have hsome : a.provider a.calls request = some address := hanswer
  have hnew : ∀ other, (address, other) ∉ blocks := fun other hmem =>
    hfresh h.history hsome other (h.live.mem_iff.2 hmem)
  have hhistory := h.history.allocate request
  unfold Allocator.allocate
  simp only [hsome] at hhistory ⊢
  refine ⟨hhistory, h.live.cons _, fun l hl => ?_⟩
  obtain ⟨l₀, hl₀, rfl⟩ := Option.map_eq_some_iff.1 hl
  exact (h.ledger l₀ hl₀).record request hnew

theorem Accounts.free {address : Address} {request : Request} (h : a.Accounts ((address, request) :: blocks)) :
    (a.free (some address) request).Accounts blocks := by
  have hhistory := h.history.free (h.live.mem_iff.2 List.mem_cons_self)
  have hlive : (liveBlocks (.free address request :: a.calls)).Perm blocks := by
    have herase := h.live.erase (address, request)
    rwa [List.erase_cons_head] at herase
  unfold Allocator.free
  cases hledger : a.ledger with
  | none => exact ⟨hhistory, hlive, by simp⟩
  | some l =>
    obtain ⟨l', hstrike, hlists⟩ := (h.ledger l hledger).strike request
    simp only [hstrike]
    exact ⟨hhistory, hlive, fun _ hl => Option.some.inj hl ▸ hlists⟩

end Allocator

end StridedTensor
