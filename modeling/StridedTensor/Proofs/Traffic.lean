import Mathlib.Data.List.Induction
import StridedTensor.Proofs.Ledger

/-!
# Traffic of a tracking allocator

A client makes demands of an allocator in any order: it asks for nothing, or for memory that is not there, gives back
null, gives back what it has given back before, and may describe what it gives back by another request than it made.
Its own log of demands and answers tells which blocks it still holds (`outstanding`) and what should have reached the
provider (`forwarded`). The ledger of a tracking allocator says the same after every demand (`Faithful`) if the
provider never handed out an address that was outstanding (`FreshLog`).

A provider is a function of the calls before, so it may count them: any answers in any order are those of some
provider (`serve_scripted`), also of one that treats zeroed memory in its own way or serves other clients besides.
-/

namespace StridedTensor

/-! ### The log of a client -/

inductive Demand
  | allocate (zeroed : Bool) (request : Request)
  | free (address : Option Address) (request : Request)
  deriving DecidableEq, Repr

def Demand.isAllocate : Demand → Bool
  | allocate _ _ => true
  | free _ _ => false

/-- A demand and the address it was answered with. -/
abbrev Entry := Demand × Option Address

/-- The blocks that were handed out and not given back, the latest first. -/
def outstanding : List Entry → List Block
  | [] => []
  | (.allocate _ request, some address) :: log => (address, request) :: outstanding log
  | (.allocate _ _, none) :: log => outstanding log
  | (.free none _, _) :: log => outstanding log
  | (.free (some address) _, _) :: log => (outstanding log).eraseP (·.1 == address)

abbrev Outstanding (log : List Entry) (address : Address) : Prop := address ∈ (outstanding log).map Prod.fst

/-- What should reach the provider: every request, and of the frees those of outstanding addresses. -/
def forwarded : List Entry → List Call
  | [] => []
  | (.allocate _ request, answer) :: log => .allocate request answer :: forwarded log
  | (.free none _, _) :: log => forwarded log
  | (.free (some address) request, _) :: log =>
    if Outstanding log address then .free address request :: forwarded log else forwarded log

/-- No address was handed out while it was outstanding. -/
def FreshLog : List Entry → Prop
  | [] => True
  | (.allocate _ _, some address) :: log => ¬ Outstanding log address ∧ FreshLog log
  | (.allocate _ _, none) :: log => FreshLog log
  | (.free _ _, _) :: log => FreshLog log

instance FreshLog.decidable : (log : List Entry) → Decidable (FreshLog log)
  | [] => .isTrue trivial
  | (.allocate _ _, some address) :: log =>
    have := FreshLog.decidable log
    inferInstanceAs (Decidable (¬ Outstanding log address ∧ FreshLog log))
  | (.allocate _ _, none) :: log => FreshLog.decidable log
  | (.free _ _, _) :: log => FreshLog.decidable log

variable {log : List Entry}

private theorem FreshLog.of_cons {entry : Entry} (h : FreshLog (entry :: log)) : FreshLog log :=
  match entry, h with
  | (.allocate _ _, some _), h => h.2
  | (.allocate _ _, none), h => h
  | (.free _ _, _), h => h

/-- Giving back takes one block of that address out. -/
private theorem outstanding_perm {address : Address} (h : Outstanding log address) :
    ∃ request, (outstanding log).Perm ((address, request) :: (outstanding log).eraseP (·.1 == address)) := by
  obtain ⟨block, hmem, hblock⟩ := List.mem_map.1 h
  obtain ⟨⟨address', request⟩, before, after, -, haddress, hsplit, herase⟩ :=
    List.exists_of_eraseP (p := fun block : Block => block.1 == address) hmem (beq_iff_eq.2 hblock)
  obtain rfl : address' = address := beq_iff_eq.1 haddress
  refine ⟨request, ?_⟩
  rw [herase, hsplit]
  exact List.perm_middle

private theorem outstanding_eraseP {address : Address} (h : ¬ Outstanding log address) :
    (outstanding log).eraseP (·.1 == address) = outstanding log := by
  apply List.eraseP_of_forall_not
  intro block hmem hblock
  exact h (List.mem_map.2 ⟨block, hmem, beq_iff_eq.1 hblock⟩)

private theorem granted_forwarded (log : List Entry) :
    Provider.granted (forwarded log) = Provider.freed (forwarded log) + (outstanding log).length := by
  induction log with
  | nil => rfl
  | cons entry log ih =>
    match entry with
    | (.allocate _ request, some address) =>
      simp only [forwarded, outstanding, Provider.granted_some, Provider.freed_allocate, List.length_cons]
      omega
    | (.allocate _ request, none) => simpa [forwarded, outstanding] using ih
    | (.free none _, _) => exact ih
    | (.free (some address) request, _) =>
      by_cases hout : Outstanding log address
      · obtain ⟨_, hperm⟩ := outstanding_perm hout
        have hlength := hperm.length_eq
        simp only [forwarded, outstanding, if_pos hout, Provider.granted_free, Provider.freed_free,
          List.length_cons] at hlength ⊢
        omega
      · simpa only [forwarded, outstanding, if_neg hout, outstanding_eraseP hout] using ih

/-! ### Serving -/

namespace Allocator

def serve (a : Allocator) : Demand → Option Address × Allocator
  | .allocate false request => a.allocate request
  | .allocate true request =>
    let (answer, a) := a.allocateZeroed request
    (answer.map Prod.fst, a)
  | .free address request => (none, a.free address request)

/-- The log of demands served one after the other, the latest first, and the allocator in the end. -/
def serveAll (a : Allocator) (demands : List Demand) : List Entry × Allocator :=
  demands.foldl (fun (log, a) demand =>
    let (answer, a) := a.serve demand
    ((demand, answer) :: log, a)) ([], a)

variable {a : Allocator} {l : Ledger}

/-- Zeroed memory is allocated like any other. -/
theorem serve_allocate (a : Allocator) (zeroed : Bool) (request : Request) :
    a.serve (.allocate zeroed request) = a.allocate request := by
  cases zeroed with
  | false => rfl
  | true =>
    have hanswer : (a.allocateZeroed request).1.map Prod.fst = (a.allocate request).1 := by
      show ((a.allocate request).1.map _).map Prod.fst = _
      rw [Option.map_map]
      exact Option.map_id'
    exact Prod.ext hanswer rfl

private theorem serveAll_append_singleton (a : Allocator) (demands : List Demand) (demand : Demand) :
    a.serveAll (demands ++ [demand]) =
      ((demand, ((a.serveAll demands).2.serve demand).1) :: (a.serveAll demands).1,
        ((a.serveAll demands).2.serve demand).2) := by
  unfold serveAll
  rw [List.foldl_append]
  rfl

/-! ### Any answers -/

end Allocator

namespace Provider

/-- How often the provider was asked for a block. -/
def asked (calls : List Call) : Nat :=
  calls.countP fun
    | .allocate _ _ => true
    | .free _ _ => false

@[simp] theorem asked_allocate (request : Request) (answer : Option Address) (calls : List Call) :
    asked (.allocate request answer :: calls) = asked calls + 1 := List.countP_cons_of_pos rfl

@[simp] theorem asked_free (address : Address) (request : Request) (calls : List Call) :
    asked (.free address request :: calls) = asked calls := List.countP_cons_of_neg (by simp)

/-- The given answers one after the other, whatever is asked for. -/
def scripted (answers : Nat → Option Address) : Provider := fun calls _ => answers (asked calls)

end Provider

namespace Allocator

private theorem asked_calls_free (a : Allocator) (address : Option Address) (request : Request) :
    Provider.asked (a.free address request).calls = Provider.asked a.calls := by
  unfold free
  split
  · rfl
  · split
    · exact Provider.asked_free _ _ _
    · split
      · rfl
      · exact Provider.asked_free _ _ _

private theorem provider_serveAll (a : Allocator) (demands : List Demand) :
    (a.serveAll demands).2.provider = a.provider := by
  induction demands using List.reverseRecOn with
  | nil => rfl
  | append_singleton demands demand ih =>
    rw [serveAll_append_singleton, ← ih]
    cases demand with
    | allocate zeroed request => rw [serve_allocate, provider_allocate]
    | free address request => exact provider_free _ address request

private theorem asked_calls_serveAll (p : Provider) (demands : List Demand) :
    Provider.asked ((tracking p).serveAll demands).2.calls = demands.countP Demand.isAllocate := by
  induction demands using List.reverseRecOn with
  | nil => rfl
  | append_singleton demands demand ih =>
    rw [serveAll_append_singleton, List.countP_append, ← ih]
    cases demand with
    | allocate zeroed request =>
      rw [serve_allocate]
      exact Provider.asked_allocate _ _ _
    | free address request => exact asked_calls_free _ address request

/-- A tracking allocator can be answered in any way: the script is read on with each request. -/
theorem serve_scripted (answers : Nat → Option Address) (demands : List Demand) (zeroed : Bool) (request : Request) :
    (((tracking (.scripted answers)).serveAll demands).2.serve (.allocate zeroed request)).1 =
      answers (demands.countP Demand.isAllocate) := by
  rw [serve_allocate, ← asked_calls_serveAll (.scripted answers) demands]
  show ((tracking (.scripted answers)).serveAll demands).2.provider _ request = _
  rw [provider_serveAll]
  rfl

/-! ### Reconciliation -/

/-- The ledger and the calls are what the log says. -/
structure Reconciled (log : List Entry) (a : Allocator) (l : Ledger) : Prop where
  ledger : a.ledger = some l
  lists : l.Lists a.calls (outstanding log)
  calls : a.calls = forwarded log

theorem reconciled_tracking (p : Provider) : Reconciled [] (tracking p) .empty :=
  ⟨rfl, ⟨.nil, rfl, rfl⟩, rfl⟩

namespace Reconciled

variable {request : Request} {address : Address}

private theorem contains_iff (h : Reconciled log a l) : l.blocks.contains address = true ↔ Outstanding log address := by
  rw [Table.contains_eq_true]
  simp only [Table.get?_eq_some, h.lists.entries.mem_iff, List.mem_map]
  constructor
  · rintro ⟨size, block, hmem, heq⟩
    exact ⟨block, hmem, congrArg Prod.fst heq⟩
  · rintro ⟨block, hmem, rfl⟩
    exact ⟨block.2.size, block, hmem, rfl⟩

private theorem allocate_none (h : Reconciled log a l) (hanswer : (a.allocate request).1 = none) :
    (a.allocate request).2 = { a with calls := .allocate request none :: a.calls } := by
  have hnone : a.provider a.calls request = none := hanswer
  unfold allocate
  simp only [hnone, h.ledger, Option.map_some, Ledger.record]

private theorem allocate_some (h : Reconciled log a l) (hanswer : (a.allocate request).1 = some address) :
    (a.allocate request).2 =
      { a with
        calls := .allocate request (some address) :: a.calls
        ledger := some (l.record request.size (some address)) } := by
  have hsome : a.provider a.calls request = some address := hanswer
  unfold allocate
  simp only [hsome, h.ledger, Option.map_some]

/-- The entry under the address is struck out whatever request the client names. -/
private theorem free_outstanding (h : Reconciled log a l) (request : Request) (hout : Outstanding log address) :
    ∃ l', a.free (some address) request =
        { a with calls := .free address request :: a.calls, ledger := some l' } ∧
      l'.Lists (.free address request :: a.calls) ((outstanding log).eraseP (·.1 == address)) := by
  obtain ⟨held, hperm⟩ := outstanding_perm hout
  obtain ⟨l', hstrike, hlists⟩ := (h.lists.perm hperm).strike request
  refine ⟨l', ?_, hlists⟩
  unfold Allocator.free
  simp only [h.ledger, hstrike]

private theorem free_unknown (h : Reconciled log a l) (request : Request) (hout : ¬ Outstanding log address) :
    a.free (some address) request = a := by
  have hstrike : l.strike? address = none := if_neg fun hcontains => hout (h.contains_iff.1 hcontains)
  unfold Allocator.free
  simp only [h.ledger, hstrike]

theorem serve (h : Reconciled log a l) (demand : Demand) (hfresh : FreshLog ((demand, (a.serve demand).1) :: log)) :
    ∃ l', Reconciled ((demand, (a.serve demand).1) :: log) (a.serve demand).2 l' := by
  match demand with
  | .allocate zeroed request =>
    rw [serve_allocate] at hfresh ⊢
    cases hanswer : (a.allocate request).1 with
    | none =>
      rw [h.allocate_none hanswer]
      refine ⟨l, h.ledger, h.lists.refuse request, ?_⟩
      rw [forwarded, h.calls]
    | some address =>
      rw [hanswer] at hfresh
      have hnew : ∀ other, (address, other) ∉ outstanding log := fun other hmem =>
        hfresh.1 (List.mem_map_of_mem hmem)
      rw [h.allocate_some hanswer]
      refine ⟨_, rfl, h.lists.record request hnew, ?_⟩
      rw [forwarded, h.calls]
  | .free none request => exact ⟨l, h.ledger, h.lists, h.calls⟩
  | .free (some address) request =>
    show ∃ l', Reconciled _ (a.free (some address) request) l'
    by_cases hout : Outstanding log address
    · obtain ⟨l', hfree, hlists⟩ := h.free_outstanding request hout
      rw [hfree]
      refine ⟨l', rfl, hlists, ?_⟩
      rw [forwarded, if_pos hout, h.calls]
    · rw [h.free_unknown request hout]
      refine ⟨l, h.ledger, ?_, ?_⟩
      · rw [outstanding, outstanding_eraseP hout]
        exact h.lists
      · rw [forwarded, if_neg hout, h.calls]

end Reconciled

theorem reconciled_serveAll (p : Provider) (demands : List Demand)
    (hfresh : FreshLog ((tracking p).serveAll demands).1) :
    ∃ l, Reconciled ((tracking p).serveAll demands).1 ((tracking p).serveAll demands).2 l := by
  induction demands using List.reverseRecOn with
  | nil => exact ⟨_, reconciled_tracking p⟩
  | append_singleton demands demand ih =>
    rw [serveAll_append_singleton] at hfresh ⊢
    obtain ⟨l, h⟩ := ih hfresh.of_cons
    exact h.serve demand hfresh

/-! ### Faithful ledgers -/

/-- The ledger accounts for what the client holds, the provider was called as the log says, and this is what the next
call can change. -/
structure Faithful (log : List Entry) (a : Allocator) (l : Ledger) : Prop where
  blocks : l.blocks.entries.Perm ((outstanding log).map fun block => (block.1, block.2.size))
  live : l.live = (outstanding log).length
  liveBytes : l.liveBytes = ((outstanding log).map fun block => block.2.size).sum
  balance : l.allocations = l.frees + l.live
  calls : a.calls = forwarded log
  allocations : l.allocations = Provider.granted a.calls
  frees : l.frees = Provider.freed a.calls
  failed : ∀ zeroed request, (a.serve (.allocate zeroed request)).1 = none →
    (a.serve (.allocate zeroed request)).2 = { a with calls := .allocate request none :: a.calls }
  null : ∀ request, (a.serve (.free none request)).2 = a
  unknown : ∀ address request, ¬ Outstanding log address → (a.serve (.free (some address) request)).2 = a
  freed : ∀ address request, Outstanding log address →
    ∃ l', (a.serve (.free (some address) request)).2 =
        { a with calls := .free address request :: a.calls, ledger := some l' } ∧
      l'.frees = l.frees + 1

theorem Reconciled.faithful (h : Reconciled log a l) : Faithful log a l where
  blocks := h.lists.entries
  live := h.lists.live_eq
  liveBytes := h.lists.liveBytes_eq
  balance := by rw [h.lists.allocations, h.lists.frees, h.lists.live_eq, h.calls, granted_forwarded]
  calls := h.calls
  allocations := h.lists.allocations
  frees := h.lists.frees
  failed zeroed request hanswer := by
    rw [serve_allocate] at hanswer ⊢
    exact h.allocate_none hanswer
  null _ := rfl
  unknown _ request hout := h.free_unknown request hout
  freed address request hout := by
    obtain ⟨l', hfree, hlists⟩ := h.free_outstanding request hout
    exact ⟨l', hfree, by rw [hlists.frees, Provider.freed_free, h.lists.frees]⟩

/-- The ledger of a tracking allocator is faithful after any demands. -/
theorem faithful_serveAll (p : Provider) (demands : List Demand)
    (hfresh : FreshLog ((tracking p).serveAll demands).1) :
    ∃ l, ((tracking p).serveAll demands).2.ledger = some l ∧
      Faithful ((tracking p).serveAll demands).1 ((tracking p).serveAll demands).2 l := by
  obtain ⟨l, h⟩ := reconciled_serveAll p demands hfresh
  exact ⟨l, h.ledger, h.faithful⟩

end Allocator

/-- One block on the host, which is handed out again when it was freed. -/
def Provider.oneBlock : Provider := fun calls request =>
  if request.size ≠ 0 ∧ request.device.isCpu ∧ granted calls = freed calls then some 4096 else none

/-- A block, a second one that fails, frees of null and of the block and of the block again, requests for nothing and of
a device that is not there, and the address once more. -/
def reuse : List Demand :=
  let on (size : Nat) (device : Device) : Request := ⟨size, 64, device⟩
  [.allocate false (on 16 .cpu), .allocate true (on 8 .cpu), .free none (on 8 .cpu), .free (some 4096) (on 16 .cpu),
    .free (some 4096) (on 16 .cpu), .allocate false (on 0 .cpu), .allocate true (on 8 .gpu),
    .allocate true (on 32 .cpu)]

namespace Allocator

theorem faithful_reuse :
    FreshLog ((tracking .oneBlock).serveAll reuse).1 ∧
      ∃ l, ((tracking .oneBlock).serveAll reuse).2.ledger = some l ∧
        Faithful ((tracking .oneBlock).serveAll reuse).1 ((tracking .oneBlock).serveAll reuse).2 l :=
  ⟨by decide, faithful_serveAll .oneBlock reuse (by decide)⟩

end Allocator

end StridedTensor
