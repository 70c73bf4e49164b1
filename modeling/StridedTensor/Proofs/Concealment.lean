import StridedTensor.Proofs.MaskedSession

/-!
# Memory of other devices

What callers lend for another device than the host cannot be read or written there. Its bytes stay what they are
(`Session.Run.holds_of_wrap`), and if they were others, nobody on the host would notice (`Session.Veils.performAll`).
Both follow from the fact that sessions go their way behind a mask: a mask that puts in the bytes that are there changes
nothing, now or later, and a mask that hides the bytes in which two sessions differ makes them one.
-/

namespace StridedTensor

/-! ### The bytes of other devices stay -/

/-- The piece `m` of lent memory holds these bytes, wherever it is. -/
structure Session.Holds (s : Session) (m : Nat) (contents : Bytes) : Prop where
  memory : s.resources.callerMemory[m]? = some contents
  buffer : ∀ {b}, b ∈ s.buffers → b.origin = .foreign m → b.contents = contents

namespace Mask

variable {m : Nat} {contents : Bytes}

/-- Puts `contents` into the piece `m`. -/
def pin (m : Nat) (contents : Bytes) : Mask where
  memory j old := if j = m ∧ old.size = contents.size then contents else old
  size_memory j old := by
    split
    · rename_i h
      exact h.2.symm
    · rfl

private theorem pin_of_ne {j : Nat} (h : j ≠ m) : (pin m contents).memory j = id := by
  funext old
  exact if_neg fun hj => h hj.1

private theorem pin_of_size {old : Bytes} (h : old.size = contents.size) : (pin m contents).memory m old = contents :=
  if_pos ⟨rfl, h⟩

private theorem pin_of_eq {j : Nat} {old : Bytes} (h : j = m → old = contents) :
    (pin m contents).memory j old = old := by
  by_cases hj : j = m
  · rw [h hj, hj]
    exact pin_of_size rfl
  · rw [pin_of_ne hj, id]

end Mask

namespace Session

open Mask

variable {s s' : Session} {home : BufferId → Option Nat} {m : Nat} {e : Event} {contents : Bytes}

/-- The bytes of the piece `m`, on another device than the host, are already those that a mask would put there. -/
structure Pinned (s : Session) (m : Nat) (contents : Bytes) : Prop where
  same : s.mask (.pin m contents) = s
  lends : s.holdings.Lends m fun device size => device.isCpu = false ∧ size = contents.size

theorem Pinned.perform (h : s.Pinned m contents) (hr : Run home s) (hs : s.perform e = some s') :
    s'.Pinned m contents := by
  refine ⟨?_, (hr.exchanges_perform hs).lends h.lends⟩
  have hlt : m < s.resources.callerMemory.length := h.lends.lt
  have hnext : (pin m contents).memory s.resources.callerMemory.length = id := pin_of_ne (by omega)
  have hspared : ∀ b ∈ s.buffers, (pin m contents).Spares b := by
    intro b hb hcpu j horigin
    refine pin_of_ne fun hj => ?_
    rw [(h.lends.buffer hb (hj ▸ horigin)).1] at hcpu
    cases hcpu
  have hmask := perform_mask (fun k c => sparedBy_of_buffers hspared) (e := e) fun _ _ _ => hnext
  rw [h.same, Event.mask_of_id hnext, hs] at hmask
  exact (Option.some.inj hmask).symm

private theorem Pinned.performAll (h : s.Pinned m contents) (hr : Run home s) {events : List Event}
    (hs : s.performAll events = some s') : s'.Pinned m contents := by
  induction events generalizing home s with
  | nil =>
    obtain rfl := Option.some.inj hs
    exact h
  | cons e events ih =>
    obtain ⟨s₁, hstep, hs⟩ := Option.bind_eq_some_iff.1 hs
    exact ih (h.perform hr hstep) (hr.perform hstep) hs

private theorem Pinned.holds (h : s.Pinned m contents) : s.Holds m contents where
  memory := by
    obtain ⟨_, old, hold, -, hsize⟩ := h.lends.memory
    have hsame := s.resources.getElem?_callerMemory_mask (μ := .pin m contents) m
    rw [show s.resources.mask (.pin m contents) = s.resources from congrArg Session.resources h.same] at hsame
    rw [hsame, show s.resources.callerMemory[m]? = some old from hold, Option.map_some]
    exact congrArg some (pin_of_size hsize)
  buffer {b} hb horigin := by
    obtain ⟨hcpu, hsize⟩ := h.lends.buffer hb horigin
    obtain ⟨k, c, hc, hmem⟩ := mem_buffers.1 hb
    obtain ⟨id, hid⟩ := Table.exists_get?_of_mem hmem
    -- the context is the same behind the mask, and so is the buffer
    have hcontext : (s.mask (.pin m contents)).context? k = s.context? k := by rw [h.same]
    rw [context?_mask, hc, Option.map_some] at hcontext
    have hget := c.get?_mask (μ := .pin m contents) id
    rw [Option.some.inj hcontext, hid, Option.map_some] at hget
    have hsame := congrArg Buffer.contents (Option.some.inj hget)
    rw [Buffer.contents_mask_of_foreign hcpu horigin] at hsame
    rw [hsame]
    exact pin_of_size hsize

/-- Memory that is lent for another device than the host keeps its bytes for good. -/
theorem Run.holds_of_wrap (h : Run home s) {k : Nat} {out : Handle} {address : Address} {extents : List Nat}
    {type : ElementType} {device : Device} (hcpu : device.isCpu = false) {s₁ : Session}
    (hwrap : s.perform (.command k (.wrap out address contents extents type device)) = some s₁) {events : List Event}
    (hs : s₁.performAll events = some s') : s'.Holds s.resources.callerMemory.length contents := by
  obtain ⟨hmemory, hbuffer⟩ := h.perform_wrap hwrap
  have hlast : s₁.resources.callerMemory[s.resources.callerMemory.length]? = some contents := by
    rw [hmemory]
    exact List.getElem?_concat_length
  have hpinned : s₁.Pinned s.resources.callerMemory.length contents := by
    refine ⟨mask_eq_self (fun j old hj => ?_) fun b hb j horigin => ?_, fun {b} hb horigin => ?_, device, contents,
      hlast, hcpu, rfl⟩
    · refine pin_of_eq fun hm => ?_
      subst hm
      exact Option.some.inj (hj.symm.trans hlast)
    · refine pin_of_eq fun hm => ?_
      subst hm
      rw [hbuffer b hb horigin]
      rfl
    · rw [hbuffer b hb horigin]
      exact ⟨hcpu, rfl⟩
  exact (hpinned.performAll (h.perform hwrap) hs).holds

end Session

/-! ### What can be seen from the host -/

/-- The buffer as it is seen from the host: on another device no byte of it. -/
def Buffer.seen (b : Buffer) : Buffer := if b.device.isCpu then b else b.blank

def Context.seen (c : Context) : Context := { c with arena := Table.map Buffer.seen c.arena }

def Reply.seen : Reply → Reply
  | .buffer b => .buffer (b.map Buffer.seen)
  | reply => reply

/-- The command without the bytes that it lends for another device than the host. -/
def Command.seen : Command → Command
  | .wrap out address contents extents type device =>
    .wrap out address (if device.isCpu then contents else Array.replicate contents.size 0) extents type device
  | command => command

def Event.seen : Event → Event
  | .command k asked => .command k asked.seen
  | e => e

section Seen

variable {μ : Mask}

private theorem Buffer.device_seen (b : Buffer) : b.seen.device = b.device := by
  unfold seen
  split <;> rfl

private theorem Buffer.seen_of_isCpu {b : Buffer} (h : b.device.isCpu = true) : b.seen = b := if_pos h

private theorem Buffer.seen_mask (b : Buffer) : (b.mask μ).seen = b.seen := by
  cases hcpu : b.device.isCpu with
  | true => rw [mask_of_isCpu hcpu]
  | false =>
    have hblank : (b.mask μ).blank = b.blank := by
      unfold blank
      rw [size_mask]
      rfl
    simp only [seen, device_mask, hcpu, Bool.false_eq_true, if_false, hblank]

private theorem Context.seen_mask (c : Context) : (c.mask μ).seen = c.seen := by
  unfold seen mask
  simp only [Table.map_map, Buffer.seen_mask]

private theorem Reply.seen_mask (reply : Reply) : (reply.mask μ).seen = reply.seen := by
  cases reply
  case buffer b =>
    cases b with
    | none => rfl
    | some b => exact congrArg (fun b => Reply.buffer (some b)) b.seen_mask
  all_goals rfl

end Seen

/-- Whether an event lends memory for another device than the host. -/
def Event.lendsElsewhere (e : Event) : Bool := e.lends?.any fun device => !device.isCpu

namespace Session

/-- The pieces of memory that are lent for other devices than the host while the events happen. -/
def LentElsewhere (s : Session) : List Event → Nat → Prop
  | [], _ => False
  | e :: events, m => m = s.resources.callerMemory.length ∧ e.lendsElsewhere = true ∨
    ∃ s', s.perform e = some s' ∧ s'.LentElsewhere events m

/-- Seen from the host the sessions are the same, and they will answer the same. What callers have lent `elsewhere` is
not seen. -/
structure SameOnHost (elsewhere : Nat → Prop) (s l : Session) : Prop where
  allocators : l.resources.allocators = s.resources.allocators
  memory : ∀ {m}, ¬ elsewhere m → l.resources.callerMemory[m]? = s.resources.callerMemory[m]?
  tensors : l.tensors = s.tensors
  context : ∀ k, (l.context? k).map Context.seen = (s.context? k).map Context.seen
  buffer : ∀ {k c d id b}, s.context? k = some c → l.context? k = some d → c.arena.get? id = some b →
    b.device.isCpu = true → d.arena.get? id = some b
  answer : ∀ k {command command' : Command}, command.seen = command'.seen →
    (l.step k command').map (fun o => o.1.map Reply.seen) = (s.step k command).map fun o => o.1.map Reply.seen

end Session

/-! ### Two runs at once -/

/-- Puts zeros into the pieces of `hidden`. -/
def Mask.hide (hidden : Nat → Bool) : Mask where
  memory m contents := if hidden m then Array.replicate contents.size 0 else contents
  size_memory m contents := by
    split
    · exact Array.size_replicate
    · rfl

/-- What is hidden after an event that may lend the piece `m`. -/
def Event.hides (hidden : Nat → Bool) (m : Nat) (e : Event) (j : Nat) : Bool :=
  hidden j || (j == m && e.lendsElsewhere)

section Hide

variable {hidden hidden' : Nat → Bool} {m : Nat}

private theorem Mask.hide_of_not (h : hidden m = false) : (Mask.hide hidden).memory m = id := by
  funext contents
  simp only [hide, h, Bool.false_eq_true, if_false, id]

private theorem Mask.hide_hide (h : ∀ m, hidden m = true → hidden' m = true) (m : Nat) (contents : Bytes) :
    (Mask.hide hidden').memory m ((Mask.hide hidden).memory m contents) = (Mask.hide hidden').memory m contents := by
  cases hm : hidden' m with
  | true =>
    have hzeros : ∀ old, (Mask.hide hidden').memory m old = Array.replicate old.size 0 := fun _ => if_pos hm
    rw [hzeros, hzeros, (Mask.hide hidden).size_memory]
  | false =>
    have hshown : hidden m = false := by
      rw [← Bool.not_eq_true]
      intro hhidden
      rw [h m hhidden] at hm
      cases hm
    rw [hide_of_not hshown, id]

private theorem Event.hides_of_ne {j : Nat} (h : j ≠ m) (e : Event) : e.hides hidden m j = hidden j := by
  unfold hides
  rw [beq_eq_false_iff_ne.2 h, Bool.false_and, Bool.or_false]

private theorem Event.hides_self (h : hidden m = false) (e : Event) : e.hides hidden m m = e.lendsElsewhere := by
  unfold hides
  rw [h, beq_self_eq_true, Bool.false_or, Bool.true_and]

private theorem Event.exists_of_lends? {e : Event} {device : Device} (h : e.lends? = some device) :
    ∃ k out address contents extents type, e = .command k (.wrap out address contents extents type device) := by
  cases e with
  | register | setDefault | build => cases h
  | command k asked =>
    cases asked
    case wrap out address contents extents type d =>
      obtain rfl := Option.some.inj h
      exact ⟨k, out, address, contents, extents, type, rfl⟩
    all_goals cases h

private theorem Event.exists_of_lendsElsewhere {e : Event} (h : e.lendsElsewhere = true) :
    ∃ k out address contents extents type device, device.isCpu = false ∧
      e = .command k (.wrap out address contents extents type device) := by
  unfold lendsElsewhere at h
  cases hlent : e.lends? with
  | none => simp [hlent] at h
  | some device =>
    rw [hlent, Option.any_some, Bool.not_eq_true'] at h
    obtain ⟨k, out, address, contents, extents, type, he⟩ := exists_of_lends? hlent
    exact ⟨k, out, address, contents, extents, type, device, h, he⟩

private theorem Event.lends?_seen (e : Event) : e.seen.lends? = e.lends? := by
  cases e with
  | register | setDefault | build => rfl
  | command k asked => cases asked <;> rfl

/-- Behind the mask an event lends the bytes that are seen from the host. -/
private theorem Event.mask_hide (h : hidden m = false) (e : Event) : e.mask (.hide (e.hides hidden m)) m = e.seen := by
  cases hlent : e.lends? with
  | some device =>
    have hm : e.hides hidden m m = !device.isCpu := by rw [hides_self h, lendsElsewhere, hlent, Option.any_some]
    obtain ⟨k, out, address, contents, extents, type, rfl⟩ := exists_of_lends? hlent
    cases hcpu : device.isCpu <;>
      simp only [Event.mask, Command.mask, Event.seen, Command.seen, Mask.hide, hm, hcpu, Bool.not_false, Bool.not_true,
        Bool.false_eq_true, if_true, if_false]
  | none =>
    have hm : e.hides hidden m m = false := by rw [hides_self h, lendsElsewhere, hlent, Option.any_none]
    rw [mask_of_id (Mask.hide_of_not hm)]
    cases e with
    | register | setDefault | build => rfl
    | command k asked =>
      cases asked
      case wrap => cases hlent
      all_goals rfl

end Hide

namespace Session

variable {s s' l : Session} {home home' : BufferId → Option Nat} {hidden : Nat → Bool} {e e' : Event}

/-- What is hidden is memory that has been lent, and none of it for the host. -/
structure Hides (hidden : Nat → Bool) (s : Session) : Prop where
  host : ∀ {b m}, b ∈ s.buffers → b.device.isCpu = true → b.origin = .foreign m → hidden m = false
  known : ∀ {m}, s.resources.callerMemory.length ≤ m → hidden m = false

namespace Hides

private theorem sparedBy (h : s.Hides hidden) (hr : Run home s) (e : Event) (k : Nat) (c : Context)
    (hc : s.context? k = some c) : c.SparedBy (.hide (e.hides hidden s.resources.callerMemory.length)) := by
  refine sparedBy_of_buffers (fun b hb hcpu m horigin => Mask.hide_of_not ?_) hc
  have hlt : m < s.resources.callerMemory.length := hr.lt_of_origin hb horigin
  rw [Event.hides_of_ne (by omega)]
  exact h.host hb hcpu horigin

private theorem lent (h : s.Hides hidden) (e : Event) (device : Device) (hlent : e.lends? = some device)
    (hcpu : device.isCpu = true) :
    (Mask.hide (e.hides hidden s.resources.callerMemory.length)).memory s.resources.callerMemory.length = id := by
  apply Mask.hide_of_not
  rw [Event.hides_self (h.known (Nat.le_refl _)), Event.lendsElsewhere, hlent, Option.any_some, hcpu, Bool.not_true]

private theorem perform_seen (h : s.Hides hidden) (hr : Run home s) (e : Event) :
    (s.mask (.hide (e.hides hidden s.resources.callerMemory.length))).perform e.seen =
      (s.perform e).map (mask (.hide (e.hides hidden s.resources.callerMemory.length))) := by
  rw [← perform_mask (h.sparedBy hr e) (h.lent e), Event.mask_hide (h.known (Nat.le_refl _))]

private theorem step_seen (h : s.Hides hidden) (hr : Run home s) (k : Nat) (command : Command) :
    (s.mask (.hide ((Event.command k command).hides hidden s.resources.callerMemory.length))).step k command.seen =
      (s.step k command).map
        (maskOutcome (.hide ((Event.command k command).hides hidden s.resources.callerMemory.length))) := by
  have hseen := Event.mask_hide (h.known (Nat.le_refl _)) (.command k command)
  obtain ⟨-, hseen⟩ := Event.command.inj hseen
  rw [← step_mask (h.sparedBy hr (.command k command)) (h.lent (.command k command)), hseen]

theorem perform (h : s.Hides hidden) (hr : Run home s) (hs : s.perform e = some s') :
    s'.Hides (e.hides hidden s.resources.callerMemory.length) := by
  have hexchanges := hr.exchanges_perform hs
  have hle : s.resources.callerMemory.length ≤ s'.resources.callerMemory.length := hexchanges.length_callerMemory_le
  have hnew : hidden s.resources.callerMemory.length = false := h.known (Nat.le_refl _)
  refine ⟨fun {b m} hb hcpu horigin => ?_, fun {m} hm => ?_⟩
  · by_cases hsame : m = s.resources.callerMemory.length
    · -- a buffer over the new memory is on the device for which it was lent
      subst hsame
      rw [Event.hides_self hnew, ← Bool.not_eq_true]
      intro hlent
      obtain ⟨k, out, address, contents, extents, type, device, hdevice, rfl⟩ := Event.exists_of_lendsElsewhere hlent
      rw [(hr.perform_wrap hs).2 b hb horigin] at hcpu
      exact Bool.false_ne_true (hdevice.symm.trans hcpu)
    · rw [Event.hides_of_ne hsame]
      rcases Nat.lt_or_ge m s.resources.callerMemory.length with hlt | hge
      · -- old memory stays on its device
        have hlends : s.holdings.Lends m fun device _ => device.isCpu = true → hidden m = false :=
          ⟨fun hb horigin hcpu => h.host hb hcpu horigin, .gpu, _, List.getElem?_eq_getElem hlt,
            fun hgpu => by cases hgpu⟩
        exact (hexchanges.lends hlends).buffer hb horigin hcpu
      · exact h.known hge
  · by_cases hsame : m = s.resources.callerMemory.length
    · subst hsame
      rw [Event.hides_self hnew, ← Bool.not_eq_true]
      intro hlent
      obtain ⟨k, out, address, contents, extents, type, device, -, rfl⟩ := Event.exists_of_lendsElsewhere hlent
      have hlength := congrArg List.length (hr.perform_wrap hs).1
      rw [List.length_append, List.length_singleton] at hlength
      omega
    · rw [Event.hides_of_ne hsame]
      exact h.known (hle.trans hm)

end Hides

section Rel

variable {α β : Type} {r : α → α → Prop} {q : β → β → Prop} {o o' : Option α}

private theorem rel_of_map_eq {f : α → β} (h : o.map f = o'.map f)
    (hr : ∀ {a b}, o = some a → o' = some b → f a = f b → r a b) : Option.Rel r o o' := by
  cases o with
  | none =>
    cases o' with
    | none => exact .none
    | some b => cases h
  | some a =>
    cases o' with
    | none => cases h
    | some b => exact .some (hr rfl rfl (Option.some.inj h))

private theorem rel_bind {f f' : α → Option β} (h : Option.Rel r o o')
    (hf : ∀ {a b}, o = some a → o' = some b → r a b → Option.Rel q (f a) (f' b)) :
    Option.Rel q (o.bind f) (o'.bind f') := by
  cases h with
  | none => exact .none
  | some h => exact hf rfl rfl h

end Rel

/-- Two sessions that differ in hidden bytes only. -/
structure Veils (hidden : Nat → Bool) (s l : Session) : Prop where
  left : s.Hides hidden
  right : l.Hides hidden
  same : s.mask (.hide hidden) = l.mask (.hide hidden)

namespace Veils

private theorem length_eq (h : Veils hidden s l) :
    l.resources.callerMemory.length = s.resources.callerMemory.length := by
  have hlength := congrArg (fun s : Session => s.resources.callerMemory.length) h.same
  exact (l.resources.length_callerMemory_mask.symm.trans hlength.symm).trans s.resources.length_callerMemory_mask

private theorem hides_eq (h : Veils hidden s l) (he : e.seen = e'.seen) :
    e'.hides hidden l.resources.callerMemory.length = e.hides hidden s.resources.callerMemory.length := by
  have hlends : e'.lends? = e.lends? := by rw [← e'.lends?_seen, ← he, e.lends?_seen]
  unfold Event.hides Event.lendsElsewhere
  rw [h.length_eq, hlends]

/-- It stays so if more is hidden. -/
private theorem mask_eq (h : Veils hidden s l) (e : Event) (m : Nat) :
    s.mask (.hide (e.hides hidden m)) = l.mask (.hide (e.hides hidden m)) := by
  have hmore : ∀ j, hidden j = true → e.hides hidden m j = true := by
    intro j hj
    unfold Event.hides
    rw [hj, Bool.true_or]
  rw [← mask_mask (Mask.hide_hide hmore) s, h.same, mask_mask (Mask.hide_hide hmore) l]

theorem perform (h : Veils hidden s l) (hs : Run home s) (hl : Run home' l) (he : e.seen = e'.seen) :
    Option.Rel (Veils (e.hides hidden s.resources.callerMemory.length)) (s.perform e) (l.perform e') := by
  have hleft := h.left.perform_seen hs e
  have hright := h.right.perform_seen hl e'
  rw [h.hides_eq he, ← he, ← h.mask_eq e, hleft] at hright
  refine rel_of_map_eq hright fun {s' l'} hs' hl' hsame => ⟨h.left.perform hs hs', ?_, hsame⟩
  rw [← h.hides_eq he]
  exact h.right.perform hl hl'

theorem answer (h : Veils hidden s l) (hs : Run home s) (hl : Run home' l) (k : Nat) {command command' : Command}
    (hc : command.seen = command'.seen) :
    (l.step k command').map (fun o => o.1.map Reply.seen) = (s.step k command).map fun o => o.1.map Reply.seen := by
  have he : (Event.command k command).seen = (Event.command k command').seen := congrArg (Event.command k) hc
  have hleft := h.left.step_seen hs k command
  have hright := h.right.step_seen hl k command'
  rw [h.hides_eq he, ← hc, ← h.mask_eq, hleft] at hright
  have hanswer := congrArg (Option.map fun o : Result Reply × Session => o.1.map Reply.seen) hright
  simp only [Option.map_map] at hanswer
  have hseen : ∀ μ : Mask, (fun o : Result Reply × Session => o.1.map Reply.seen) ∘ maskOutcome μ =
      fun o => o.1.map Reply.seen := by
    intro μ
    funext o
    obtain ⟨r, _⟩ := o
    cases r with
    | error e => rfl
    | ok reply => exact congrArg Except.ok reply.seen_mask
  rw [hseen] at hanswer
  exact hanswer.symm

private theorem context_eq (h : Veils hidden s l) (k : Nat) :
    (l.context? k).map Context.seen = (s.context? k).map Context.seen := by
  have hcontext := congrArg (fun s : Session => (s.context? k).map Context.seen) h.same
  simp only [context?_mask, Option.map_map, Function.comp_def, Context.seen_mask] at hcontext
  exact hcontext.symm

private theorem callerMemory_eq (h : Veils hidden s l) {m : Nat} (hm : hidden m = false) :
    l.resources.callerMemory[m]? = s.resources.callerMemory[m]? := by
  have hsame : (s.resources.mask (.hide hidden)).callerMemory[m]? = (l.resources.mask (.hide hidden)).callerMemory[m]? :=
    congrArg (fun s : Session => s.resources.callerMemory[m]?) h.same
  rw [Resources.getElem?_callerMemory_mask, Resources.getElem?_callerMemory_mask, Mask.hide_of_not hm, Option.map_id,
    id, id] at hsame
  exact hsame.symm

private theorem sameOnHost (h : Veils hidden s l) (hs : Run home s) (hl : Run home' l) {elsewhere : Nat → Prop}
    (hhidden : ∀ m, hidden m = true → elsewhere m) : SameOnHost elsewhere s l where
  allocators := (congrArg (fun s : Session => s.resources.allocators) h.same :).symm
  memory {m} hm := by
    refine h.callerMemory_eq ?_
    rw [← Bool.not_eq_true]
    exact fun hhides => hm (hhidden m hhides)
  tensors := (congrArg Session.tensors h.same :).symm
  context := h.context_eq
  buffer {k c d id b} hc hd hb hcpu := by
    have hseen := h.context_eq k
    rw [hc, hd, Option.map_some, Option.map_some] at hseen
    have hget := congrArg (fun c : Context => c.arena.get? id) (Option.some.inj hseen)
    simp only [Context.seen, Table.get?_map, hb, Option.map_some, Buffer.seen_of_isCpu hcpu] at hget
    obtain ⟨b', hb', hsame⟩ := Option.map_eq_some_iff.1 hget
    have hdevice : b'.device = b.device := by rw [← hsame, b'.device_seen]
    rw [hb', ← hsame, Buffer.seen_of_isCpu (hdevice ▸ hcpu)]
  answer := h.answer hs hl

theorem performAll (h : Veils hidden s l) (hs : Run home s) (hl : Run home' l) {events events' : List Event}
    (he : events.map Event.seen = events'.map Event.seen) {elsewhere : Nat → Prop}
    (hhidden : ∀ m, hidden m = true → elsewhere m) (hlent : ∀ m, s.LentElsewhere events m → elsewhere m) :
    Option.Rel (SameOnHost elsewhere) (s.performAll events) (l.performAll events') := by
  induction events generalizing home home' hidden s l events' with
  | nil =>
    obtain rfl : events' = [] := List.map_eq_nil_iff.1 he.symm
    exact .some (h.sameOnHost hs hl hhidden)
  | cons e events ih =>
    cases events' with
    | nil => cases he
    | cons e' events' =>
      obtain ⟨he, hrest⟩ := List.cons.inj he
      simp only [Session.performAll, List.foldlM_cons]
      refine rel_bind (h.perform hs hl he) fun {s' l'} hs' hl' hveils => ?_
      refine ih hveils (hs.perform hs') (hl.perform hl') hrest (fun m hm => ?_) fun m hm => ?_
      · unfold Event.hides at hm
        rw [Bool.or_eq_true, Bool.and_eq_true, beq_iff_eq] at hm
        rcases hm with hm | hm
        · exact hhidden m hm
        · exact hlent m (.inl hm)
      · exact hlent m (.inr ⟨s', hs', hm⟩)

end Veils

private theorem veils_self (s : Session) : Veils (fun _ => false) s s :=
  ⟨⟨fun _ _ _ => rfl, fun _ => rfl⟩, ⟨fun _ _ _ => rfl, fun _ => rfl⟩, rfl⟩

/-! ### The main statement -/

/-- Memory that is lent for another device than the host keeps its bytes. Whatever they are makes no difference on the
host: not to the buffers there, not to other memory that is lent, not to any answer. -/
theorem Run.conceals (h : Run home s) :
    (∀ {k out address contents extents type device s₁ events s'}, device.isCpu = false →
      s.perform (.command k (.wrap out address contents extents type device)) = some s₁ →
      s₁.performAll events = some s' → s'.Holds s.resources.callerMemory.length contents) ∧
    ∀ {events events' : List Event}, events.map Event.seen = events'.map Event.seen →
      Option.Rel (SameOnHost (s.LentElsewhere events)) (s.performAll events) (s.performAll events') := by
  refine ⟨fun hcpu hwrap hs => h.holds_of_wrap hcpu hwrap hs, fun he => ?_⟩
  -- in the beginning there is nothing to hide
  exact s.veils_self.performAll h h he (fun _ hm => by cases hm) fun _ hm => hm

/-! ### Memory of two other devices -/

/-- A client of a strict and of a lenient context lends memory for a GPU and for an NPU, and tries to copy it, to
compute with it and to take it back. -/
def lendElsewhere (contents : Bytes) : List Event := [.command 0 (.wrap "g" 4096 contents [2] .f32 .gpu),
  .command 0 (.view "v" "g" (.slice 0 1 2)), .command 0 (.ofScalar "x" ⟨.f32, 0x3f800000#32⟩ .cpu),
  .command 0 (.copy "v" "x"), .command 1 (.wrap "n" 8192 contents [2] .f32 .npu),
  .command 1 (.alloc "y" [2] .f32 .cpu), .command 1 (.kernel (.unary .relu "n" "y")), .command 0 (.detach "v")]

theorem lendElsewhere_conceals : ∃ s l l', initial.performAll [.build {}, .build { strict := false }] = some s ∧
    s.performAll (lendElsewhere #[1, 2, 3, 4, 5, 6, 7, 8]) = some l ∧
    s.performAll (lendElsewhere #[8, 7, 6, 5, 4, 3, 2, 1]) = some l' ∧ l.Holds 0 #[1, 2, 3, 4, 5, 6, 7, 8] ∧
    l'.Holds 0 #[8, 7, 6, 5, 4, 3, 2, 1] ∧
    SameOnHost (s.LentElsewhere (lendElsewhere #[1, 2, 3, 4, 5, 6, 7, 8])) l l' ∧
    (l'.step 1 (.get "n" [0])).map Prod.fst = some (Result.reject (.device .npu)) ∧
    (l'.step 1 (.kernel (.unary .relu "n" "y"))).map Prod.fst =
      some (.ok (.wrote (.ok [⟨.f32, 0#32⟩, ⟨.f32, 0#32⟩]))) := by
  obtain ⟨s, hs⟩ : ∃ s, initial.performAll [.build {}, .build { strict := false }] = some s := ⟨_, rfl⟩
  have hnone : (initial.performAll [.build {}, .build { strict := false }]).map
      (·.resources.callerMemory.length) = some 0 := rfl
  have hl : ((initial.performAll [.build {}, .build { strict := false }]).bind
      (·.performAll (lendElsewhere #[1, 2, 3, 4, 5, 6, 7, 8]))).isSome = true := rfl
  have hl' : ((initial.performAll [.build {}, .build { strict := false }]).bind fun s => do
      let l ← s.performAll (lendElsewhere #[8, 7, 6, 5, 4, 3, 2, 1])
      return ((l.step 1 (.get "n" [0])).map Prod.fst, (l.step 1 (.kernel (.unary .relu "n" "y"))).map Prod.fst)) =
      some (some (Result.reject (.device .npu)),
        some (.ok (.wrote (.ok [⟨.f32, 0#32⟩, ⟨.f32, 0#32⟩])))) := rfl
  simp only [hs, Option.map_some, Option.bind_some, Option.bind_eq_bind, Option.some.injEq, Option.pure_def,
    Option.bind_eq_some_iff, Prod.mk.injEq] at hnone hl hl'
  obtain ⟨l, hl⟩ := Option.isSome_iff_exists.1 hl
  obtain ⟨l', hl', hget, hkernel⟩ := hl'
  obtain ⟨home, hrun⟩ := Run.initial.performAll hs
  obtain ⟨hholds, hsame⟩ := hrun.conceals
  rw [hnone] at hholds
  obtain ⟨s₁, hwrap, hrest⟩ := Option.bind_eq_some_iff.1 hl
  obtain ⟨s₂, hwrap', hrest'⟩ := Option.bind_eq_some_iff.1 hl'
  have halike : (lendElsewhere #[1, 2, 3, 4, 5, 6, 7, 8]).map Event.seen =
      (lendElsewhere #[8, 7, 6, 5, 4, 3, 2, 1]).map Event.seen := rfl
  have hrel := hsame halike
  rw [hl, hl'] at hrel
  cases hrel with
  | some h =>
    exact ⟨s, l, l', hs, hl, hl', hholds rfl hwrap hrest, hholds rfl hwrap' hrest', h, hget, hkernel⟩

end Session

end StridedTensor
