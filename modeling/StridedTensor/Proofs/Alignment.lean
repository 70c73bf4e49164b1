import StridedTensor.Proofs.Contiguity
import StridedTensor.Proofs.Creation
import StridedTensor.Proofs.Permanence
import StridedTensor.Proofs.ViewMap

/-!
# Alignment

A tensor that has been made by a context, and every view of it that only selects and repeats elements, can be handed to
kernels as long as its buffer is live (`Session.Derives.usable`): it passes the check of the context, the test for
contiguity comes to an end, and its elements are aligned in memory if the answers of the allocator are. An offset is the
place of an element, and elements of a new tensor lie at multiples of their size.
-/

namespace StridedTensor

/-! ### Providers -/

/-- The answers are multiples of a power of two that is not below what was asked for, nor below the size of a
pointer. -/
def Provider.Aligned (p : Provider) : Prop :=
  ∀ {calls : List Call} {request : Request} {address : Address}, p calls request = some address →
    ∃ n, max 8 request.alignment ≤ 2 ^ n ∧ 2 ^ n ∣ address

private theorem normalizeAlignment_of_le {alignment : Nat} (h : alignment ≤ 1 <<< 63) :
    ∃ n, normalizeAlignment alignment = 2 ^ n ∧ max 8 alignment ≤ 2 ^ n := by
  unfold normalizeAlignment
  by_cases h8 : alignment ≤ 8
  · rw [if_pos h8]
    exact ⟨3, rfl, by omega⟩
  · have hlog := Nat.lt_log2_self (n := alignment - 1)
    rw [if_neg h8, if_pos h, Nat.one_shiftLeft]
    exact ⟨_, rfl, by omega⟩

theorem Provider.aligned_system : system.Aligned := by
  intro calls request address h
  simp only [system] at h
  split at h
  · simp at h
  · rename_i hsize
    obtain rfl := Option.some.inj h
    by_cases hfit : request.alignment ≤ 1 <<< 63
    · obtain ⟨n, hn, hle⟩ := normalizeAlignment_of_le hfit
      exact ⟨n, hle, hn ▸ Nat.dvd_mul_left _ _⟩
    · -- there is not that much memory
      have hlarge : capacity < normalizeAlignment request.alignment := by
        unfold normalizeAlignment
        rw [if_neg fun h8 => hfit (h8.trans (by decide)), if_neg hfit]
        decide
      exact absurd (.inr (.inr (Nat.lt_add_left _ hlarge))) hsize

/-- So every type finds its elements aligned. -/
theorem Provider.Aligned.size_dvd {p : Provider} (h : p.Aligned) {calls : List Call} {request : Request}
    {address : Address} (hp : p calls request = some address) (type : ElementType) : type.size ∣ address := by
  obtain ⟨n, hn, hdvd⟩ := h hp
  have h3 : 3 ≤ n := by
    by_contra hlt
    have : 2 ^ n ≤ 2 ^ 2 := Nat.pow_le_pow_right (by decide) (by lia)
    lia
  have hsize : type.size ∣ 2 ^ 3 := by cases type <;> decide
  exact (hsize.trans (Nat.pow_dvd_pow 2 h3)).trans hdvd

/-! ### Tensors that a context has made -/

namespace Workspace

variable {w w' : Workspace} {t : Tensor}

/-- The tensor has just been made, and its memory has been taken from the allocator. Without elements it has none. -/
inductive Provides (w : Workspace) (t : Tensor) (w' : Workspace) : Prop
  | null (buffer : t.buffer = none)
  | owner {shape : Shape} {type : ElementType} {device : Device} {n : Nat} {l : Layout} {b : Buffer} {r : Resources}
      (made : Made w shape type device n l b r) (tensor : t = w.nextOwner type device l)
      (same : w'.context.blank = (w.insertNext b r).context.blank)
      (resources : w'.resources = (w.insertNext b r).resources)

private theorem Provides.write {c c' : Context} {r : Resources} (h : Provides w t ⟨c, r⟩) (hc : c'.blank = c.blank) :
    Provides w t ⟨c', r⟩ := by
  cases h with
  | null buffer => exact .null buffer
  | owner made tensor same resources => exact .owner made tensor (hc.trans same) resources

private theorem allocShape_provides {shape : Shape} {type : ElementType} {device : Device}
    (h : w.allocShape shape type device = (.ok t, w')) : Provides w t w' := by
  have halloc := w.allocShape_allocated shape type device
  rw [h] at halloc
  cases halloc with
  | empty => exact .null rfl
  | make made => exact .owner made rfl rfl rfl

private theorem alloc_provides {extents : List Nat} {type : ElementType} {device : Device}
    (h : w.alloc extents type device = (.ok t, w')) : Provides w t w' := by
  unfold alloc at h
  split at h
  · exact allocShape_provides h
  · simp at h

private theorem settle_provides {t' : Tensor} {w₁ : Workspace} (h : Provides w t w₁) {o : Result Unit × Context}
    (hblank : o.2.blank = w₁.context.blank) (hs : w₁.settle t o = (.ok t', w')) : Provides w t' w' := by
  obtain ⟨r, c⟩ := o
  cases r with
  | error e => simp [settle] at hs
  | ok _ =>
    obtain ⟨ht, rfl⟩ := Prod.mk.inj hs
    obtain rfl := Except.ok.inj ht
    exact h.write hblank

private theorem ofList_provides {type : ElementType} {data : List (BitVec type.width)} {extents : List Nat}
    {device : Device}
    (h : w.ofList type data extents device = (.ok t, w')) : Provides w t w' := by
  unfold ofList at h
  split at h
  · simp at h
  · split at h
    · simp at h
    · split at h
      · simp [Result.reject] at h
      · split at h
        · simp at h
        · rename_i t₁ w₁ halloc
          exact settle_provides (allocShape_provides halloc)
            (w₁.context.blank_updateHost fun _ _ => Bytes.size_setElement) h

private theorem ofScalar_provides {value : Scalar} {device : Device} (h : w.ofScalar value device = (.ok t, w')) :
    Provides w t w' := by
  unfold ofScalar at h
  split at h
  · simp at h
  · rename_i t₁ w₁ halloc
    split at h
    · rename_i c hfill
      obtain ⟨ht, rfl⟩ := Prod.mk.inj h
      obtain rfl := Except.ok.inj ht
      have hblank := w₁.context.blank_fill t₁ value
      rw [hfill] at hblank
      exact (allocShape_provides halloc).write hblank
    · simp at h

private theorem duplicate_provides {source : Tensor} {device : Device} (h : w.duplicate source device = (.ok t, w')) :
    Provides w t w' := by
  unfold duplicate at h
  split at h
  · simp at h
  · rename_i t₁ w₁ halloc
    exact settle_provides (allocShape_provides halloc) (w₁.context.blank_copy source t₁) h

end Workspace

/-! ### Operands -/

/-- The tensor can be handed to a kernel: it has elements, passes the check, has been tested for contiguity, and starts
where an element may start. -/
structure Context.Usable (c : Context) (v : Tensor) : Prop where
  valid : c.validate v = .ok ()
  numel : v.numel = .ok v.shape.toList.prod
  pos : 0 < v.shape.toList.prod
  contiguous : ∃ b, v.isContiguous = .ok b
  buffer : ∃ id b, v.buffer = some id ∧ c.arena.get? id = some b ∧ v.type.size ∣ b.address + v.offset

/-- Where a view of an owner begins. -/
private theorem Tensor.Views.size_dvd_offset {v t : Tensor} {f : List Nat → List Nat} {id : BufferId} (h : v.Views t f)
    (howns : t.Owns id) (hpos : 0 < v.shape.toList.prod) : v.type.size ∣ v.offset := by
  have hfirst := Shape.zeros_below hpos
  have hplace := h.place hfirst
  obtain ⟨-, hdistance⟩ := Layout.distance_canonical howns.canonical
  rw [Tensor.place, Layout.distance_replicate_zero, Nat.add_zero, Tensor.place, howns.offset, Nat.zero_add,
    hdistance _ (h.below hfirst)] at hplace
  rw [hplace, h.type]
  exact Nat.dvd_mul_right _ _

private theorem Context.Keeps.usable {c : Context} {v t : Tensor} {f : List Nat → List Nat} {id : BufferId} {b : Buffer}
    (hkeeps : c.Keeps t id) (howns : t.Owns id) (hb : c.arena.get? id = some b) (haddress : t.type.size ∣ b.address)
    (h : v.Views t f) (hpos : 0 < v.shape.toList.prod) (hfit : v.shape.toList.prod < Word.limit) : c.Usable v := by
  have hvalid := h.validate hpos hfit (hkeeps.validate howns)
  obtain ⟨s, hs⟩ := (hosts_of_validate hvalid).span
  refine ⟨hvalid, Tensor.numel_of_pos hpos hfit, hpos, Tensor.isContiguous_of_span hs,
    id, b, h.buffer.trans howns.buffer, hb, ?_⟩
  exact Nat.dvd_add (h.type ▸ haddress) (h.size_dvd_offset howns hpos)

/-! ### Commands -/

/-- Whether the command makes a tensor with memory of its own. -/
def Command.makes : Command → Bool
  | .alloc _ _ _ _ | .ofList _ _ _ _ _ | .ofScalar _ _ _ | .contiguous _ _ => true
  | _ => false

namespace Session

open Workspace

variable {s s' : Session} {k : Nat} {c : Context} {t v : Tensor}

private theorem bindResult_provides {out : Handle} {o : Result Tensor × Workspace}
    (h : ∀ w', o = (.ok t, w') → Provides ⟨c, s.resources⟩ t w')
    (hstep : s.bindResult k out o = (.ok (.tensor t), s')) :
    ∃ w', Provides ⟨c, s.resources⟩ t w' ∧ s' = (s.setWorkspace k w').bind out t := by
  obtain ⟨r, w⟩ := o
  cases r with
  | error e => simp [bindResult] at hstep
  | ok t' =>
    obtain ⟨ht, rfl⟩ := Prod.mk.inj hstep
    obtain rfl : t' = t := by simpa using ht
    exact ⟨w, h w rfl, rfl⟩

private theorem step_provides (hc : s.context? k = some c) {command : Command} (hmakes : command.makes = true)
    (h : s.step k command = some (.ok (.tensor t), s')) :
    ∃ w' out, Provides ⟨c, s.resources⟩ t w' ∧ s' = (s.setWorkspace k w').bind out t := by
  unfold step at h
  simp only [hc, Option.bind_eq_bind, Option.bind_some, Option.pure_def] at h
  cases command with
  | alloc out extents type device =>
    obtain ⟨w', hw⟩ := bindResult_provides (fun w' => alloc_provides) (Option.some.inj h)
    exact ⟨w', out, hw⟩
  | ofList out type data extents device =>
    obtain ⟨w', hw⟩ := bindResult_provides (fun w' => ofList_provides) (Option.some.inj h)
    exact ⟨w', out, hw⟩
  | ofScalar out value device =>
    obtain ⟨w', hw⟩ := bindResult_provides (fun w' => ofScalar_provides) (Option.some.inj h)
    exact ⟨w', out, hw⟩
  | contiguous out x =>
    obtain ⟨source, -, h⟩ := Option.bind_eq_some_iff.1 h
    obtain ⟨w', hw⟩ := bindResult_provides (fun w' => duplicate_provides) (Option.some.inj h)
    exact ⟨w', out, hw⟩
  | _ => simp [Command.makes] at hmakes

/-- From now on the name that has been given stands for the buffer that has been made. -/
private theorem names_of_insertNext {b : Buffer} {r : Resources} {w' : Workspace} (hc : s.context? k = some c)
    (same : w'.context.blank = (insertNext ⟨c, s.resources⟩ b r).context.blank)
    (resources : w'.resources = (insertNext ⟨c, s.resources⟩ b r).resources) (out : Handle) (t : Tensor) :
    ((s.setWorkspace k w').bind out t).Names k c s.resources.nextBuffer b := by
  have hcontext : ∀ {c'}, ((s.setWorkspace k w').bind out t).context? k = some c' → c' = w'.context := by
    intro c' hc'
    have hset := context?_setWorkspace hc w' k
    rw [if_pos rfl] at hset
    exact Option.some.inj (hc'.symm.trans hset)
  refine ⟨?_, ?_, fun hc' => ?_, fun hc' hb' => ?_⟩
  · exact (lt_of_context? hc).trans_eq List.length_set.symm
  · show s.resources.nextBuffer < w'.resources.nextBuffer
    rw [resources]
    exact Nat.lt_succ_self _
  · obtain rfl := hcontext hc'
    have hsettings := congrArg Context.settings same
    exact hsettings
  · obtain rfl := hcontext hc'
    have hget := congrArg (fun c => c.arena.get? s.resources.nextBuffer) same
    simp only [get?_blank, get?_insertNext, if_true, hb', Option.map_some, Option.some.injEq] at hget
    exact hget

/-- The tensor comes from one that has been made in context `k` before, by any number of views. -/
inductive Derives (s : Session) (k : Nat) (v : Tensor) : Prop
  | intro {home : BufferId → Option Nat} {s₀ s₁ : Session} {command : Command} {t : Tensor} {events : List Event}
      {ops : List ViewOp} (run : Run home s₀) (makes : command.makes = true)
      (step : s₀.step k command = some (.ok (.tensor t), s₁)) (later : s₁.performAll events = some s)
      (keeps : ∀ op ∈ ops, op.keepsElements = true) (views : ViewOp.applyAll ops t = .ok v)

/-- A tensor that has been derived from what a context has made can be handed to kernels, if it has elements and its
buffer is live. -/
theorem Derives.usable (h : s.Derives k v) (hc : s.context? k = some c)
    (hp : (s.resources.allocator c.allocator).provider.Aligned) (hlive : c.isLive v = true)
    (hpos : 0 < v.shape.toList.prod) (hfit : v.shape.toList.prod < Word.limit) : c.Usable v := by
  obtain ⟨run, makes, step, later, keeps, views⟩ := h
  rename_i s₀ s₁ command t events ops
  obtain ⟨hviews, -⟩ := Tensor.views_applyAll keeps views
  obtain ⟨c₀, hc₀⟩ := context?_of_step step
  have hevents : s₀.performAll (.command k command :: events) = some s := by
    rw [performAll, List.foldlM_cons]
    exact Option.bind_eq_some_iff.2 ⟨s₁, Option.map_eq_some_iff.2 ⟨_, step, rfl⟩, later⟩
  obtain ⟨w', out, hprovides, rfl⟩ := step_provides hc₀ makes step
  cases hprovides with
  | null buffer =>
    -- what has no buffer is not live
    rw [Context.isLive, hviews.buffer, buffer] at hlive
    simp at hlive
  | @owner shape type device n l b r made tensor same resources =>
    subst tensor
    have hnames := (names_of_insertNext hc₀ same resources out _).performAll later
    have hallocator : c.allocator = c₀.allocator := congrArg Prod.fst (hnames.settings_eq hc)
    -- the buffer is still there, and it is the one that has been made
    have howns := made.owns
    rw [Context.isLive, hviews.buffer, howns.buffer] at hlive
    obtain ⟨b', hb'⟩ := Table.contains_eq_true.1 hlive
    have hblank := hnames.blank_eq hc hb'
    have hkeeps : c.Keeps (nextOwner ⟨c₀, s₀.resources⟩ type device l) s₀.resources.nextBuffer := by
      refine made.keeps.of_blank hallocator ?_
      rw [hb', get?_insertNext, if_pos rfl, Option.map_some, Option.map_some, hblank]
    obtain ⟨address, hanswer, -, -, rfl, -⟩ := Buffer.allocate_eq_ok made.allocate
    rw [hallocator, run.provider_eq hevents (run.placed.allocator hc₀)] at hp
    have haddress : b'.address = address := congrArg (·.address) hblank
    exact hkeeps.usable howns hb' (haddress ▸ hp.size_dvd hanswer type) hviews hpos hfit

end Session

end StridedTensor
