import StridedTensor.Proofs.Creation
import StridedTensor.Proofs.Elements
import StridedTensor.Proofs.Stale

/-!
# Copies as assignments

A copy assigns all elements at once: whatever the layouts are and however the two tensors overlap, each element of the
target becomes what the element of the source at the same index was before, and no other byte changes
(`Context.copy_eq_ok`). A contiguous copy is such an assignment to a buffer that nobody knew before
(`Session.Run.copy_assigns`).
-/

namespace StridedTensor

/-! ### Several writes -/

namespace Bytes

variable {block : Bytes} {writes : List (Nat × List UInt8)}

def writeAll (block : Bytes) (writes : List (Nat × List UInt8)) : Bytes :=
  writes.foldl (fun block p => block.write p.1 p.2) block

/-- The writes go to different bytes. -/
def Apart (p q : Nat × List UInt8) : Prop := p.1 + p.2.length ≤ q.1 ∨ q.1 + q.2.length ≤ p.1

@[simp] theorem size_writeAll : (block.writeAll writes).size = block.size := by
  unfold writeAll
  induction writes generalizing block with
  | nil => rfl
  | cons p ps ih => rw [List.foldl_cons, ih, size_write]

theorem getElem?_writeAll {i : Nat} (h : ∀ p ∈ writes, i < p.1 ∨ p.1 + p.2.length ≤ i) :
    (block.writeAll writes)[i]? = block[i]? := by
  unfold writeAll
  induction writes generalizing block with
  | nil => rfl
  | cons p ps ih =>
    have hp := h p (by simp)
    rw [List.foldl_cons, ih fun q hq => h q (by simp [hq]), getElem?_write, if_neg (by omega)]

theorem slice_congr {block' : Bytes} {start count : Nat}
    (h : ∀ i, start ≤ i → i < start + count → block'[i]? = block[i]?) :
    block'.slice start count = block.slice start count := by
  apply List.map_congr_left
  intro i hi
  rw [List.mem_range] at hi
  rw [Array.getD_eq_getD_getElem?, Array.getD_eq_getD_getElem?, h _ (by omega) (by omega)]

/-- Of writes that agree where they meet, a later one does not spoil what an earlier one has written. -/
theorem slice_writeAll (hagree : writes.Pairwise fun p q => p = q ∨ Apart p q)
    (hin : ∀ p ∈ writes, p.1 + p.2.length ≤ block.size) {p : Nat × List UInt8} (hp : p ∈ writes) :
    (block.writeAll writes).slice p.1 p.2.length = p.2 := by
  induction writes generalizing block with
  | nil => cases hp
  | cons q qs ih =>
    obtain ⟨hq, hqs⟩ := List.pairwise_cons.1 hagree
    by_cases hlater : p ∈ qs
    · exact ih hqs (fun r hr => by rw [size_write]; exact hin r (by simp [hr])) hlater
    · obtain rfl : p = q := (List.mem_cons.1 hp).resolve_right hlater
      have hkept : (writeAll (block.write p.1 p.2) qs).slice p.1 p.2.length =
          (block.write p.1 p.2).slice p.1 p.2.length := by
        refine slice_congr fun i hlo hhi => getElem?_writeAll fun q hmem => ?_
        rcases hq q hmem with rfl | hapart
        · exact absurd hmem hlater
        · unfold Apart at hapart
          omega
      have hwritten : (block.write p.1 p.2).slice (p.1 + 0) p.2.length = (p.2.drop 0).take p.2.length :=
        slice_write (hin p (by simp)) (by omega)
      rw [Nat.add_zero, List.drop_zero, List.take_length] at hwritten
      exact hkept.trans hwritten

end Bytes

/-! ### Elements as bytes -/

/-- Different indices address different bytes. -/
def Tensor.Separate (t : Tensor) : Prop :=
  ∀ {index index' : List Nat} {o o' : Nat}, t.elementOffset index = .ok o → t.elementOffset index' = .ok o' →
    index ≠ index' → o + t.type.size ≤ o' ∨ o' + t.type.size ≤ o

/-- In a canonical layout elements follow one another. -/
private theorem Tensor.separate_of_canonical {t : Tensor} (h : Layout.canonical t.shape t.type = .ok t.layout) :
    t.Separate := by
  obtain ⟨-, hdistance⟩ := Layout.distance_canonical h
  intro index index' o o' ho ho' hne
  obtain ⟨hi, -, rfl⟩ := Tensor.elementOffset_eq_ok.1 ho
  obtain ⟨hi', -, rfl⟩ := Tensor.elementOffset_eq_ok.1 ho'
  have hposition : Shape.position t.shape.toList index ≠ Shape.position t.shape.toList index' := by
    intro heq
    apply hne
    rw [← Shape.indexAt_position hi, heq, Shape.indexAt_position hi']
  unfold place
  rw [hdistance _ hi, hdistance _ hi']
  rcases Nat.lt_or_gt_of_ne hposition with hlt | hlt
  · have := Nat.mul_le_mul_left t.type.size hlt
    rw [Nat.mul_succ] at this
    omega
  · have := Nat.mul_le_mul_left t.type.size hlt
    rw [Nat.mul_succ] at this
    omega

namespace Context

variable {c c' : Context} {t source target : Tensor}

/-- The bytes of one element. -/
def bytesAt (c : Context) (t : Tensor) (index : List Nat) : Result (List UInt8) := do
  let offset ← t.elementOffset index
  let contents ← c.host t
  contents.element offset t.type.size

private theorem Hosts.bytesAt {contents : Bytes} (h : c.Hosts t contents) {index : List Nat}
    (hi : List.Forall₂ (· < ·) index t.shape.toList) :
    c.bytesAt t index = .ok (contents.slice (t.place index) t.type.size) := by
  unfold Context.bytesAt
  rw [h.elementOffset hi, Result.ok_bind, h.host, Result.ok_bind, Bytes.element_of_le (h.inside hi)]

/-- What has been stored is what later accesses work on. -/
theorem hosts_setContents (h : c.validate t = .ok ()) {id : BufferId} {b : Buffer} (hid : t.buffer = some id)
    (hb : c.arena.get? id = some b) {contents : Bytes} (hsize : contents.size = (c.contents t).size) :
    (c.setContents t contents).Hosts t contents := by
  have hnew := hosts_of_validate (validate_setContents hsize h)
  rwa [contents_setContents hid hb] at hnew

theorem validate_of_host {contents : Bytes} (h : c.host t = .ok contents) : c.validate t = .ok () := by
  obtain ⟨found, hfound, -⟩ := Result.bind_eq_ok.1 h
  exact validate_eq_ok.2 ⟨found, hfound⟩

theorem updateHost_eq_ok {f : Bytes → Result Bytes} (h : c.updateHost t f = (.ok (), c')) :
    ∃ contents contents', c.host t = .ok contents ∧ f contents = .ok contents' ∧ c' = c.setContents t contents' := by
  unfold updateHost at h
  cases hf : c.host t >>= f with
  | error e => simp [hf] at h
  | ok contents' =>
    rw [hf, Prod.mk.injEq] at h
    obtain ⟨contents, hhost, hf⟩ := Result.bind_eq_ok.1 hf
    exact ⟨contents, contents', hhost, hf, h.2.symm⟩

theorem updateHost_atomic {f : Bytes → Result Bytes} (h : (c.updateHost t f).1 ≠ .ok ()) :
    (c.updateHost t f).2 = c := by
  unfold updateHost at h ⊢
  split
  · rename_i contents hf
    simp [hf] at h
  · rfl

/-! ### Copies -/

/-- In `c'` the elements of `target` are what those of `source` were in `c`, and all else is as it was. -/
structure Assigns (c : Context) (source target : Tensor) (c' : Context) : Prop where
  /-- Buffers differ in their bytes only. -/
  blank : c'.blank = c.blank
  inside : target.Separate → ∀ {index}, List.Forall₂ (· < ·) index target.shape.toList →
    ∃ bytes, c.bytesAt source index = .ok bytes ∧ c'.bytesAt target index = .ok bytes
  outside : ∀ {id b b'}, c.arena.get? id = some b → c'.arena.get? id = some b' → ∀ i, b'.contents[i]? ≠ b.contents[i]? →
    target.buffer = some id ∧ ∃ index o, target.elementOffset index = .ok o ∧ o ≤ i ∧ i < o + target.type.size

/-- The place of each element of the target in row-major order, with the bytes that come there. -/
def copyWrites (c : Context) (source target : Tensor) : List (Nat × List UInt8) :=
  (List.range target.shape.toList.prod).map fun k =>
    let index := Shape.indexAt target.shape.toList k
    (target.place index, (c.contents source).slice (source.place index) target.type.size)

private theorem mem_copyWrites {p : Nat × List UInt8} :
    p ∈ c.copyWrites source target ↔ ∃ index, List.Forall₂ (· < ·) index target.shape.toList ∧
      p = (target.place index, (c.contents source).slice (source.place index) target.type.size) := by
  unfold copyWrites
  rw [List.mem_map]
  constructor
  · rintro ⟨k, hk, rfl⟩
    rw [List.mem_range] at hk
    exact ⟨_, Shape.indexAt_below (by omega) k, rfl⟩
  · rintro ⟨index, hi, rfl⟩
    exact ⟨_, List.mem_range.2 (Shape.position_lt hi), by simp only [Shape.indexAt_position hi]⟩

private theorem copyWrites_apart (ht : c.validate target = .ok ()) (hseparate : target.Separate) :
    (c.copyWrites source target).Pairwise Bytes.Apart := by
  have hhosts := hosts_of_validate ht
  have hoffset : ∀ {k}, k < target.shape.toList.prod →
      target.elementOffset (Shape.indexAt target.shape.toList k) =
        .ok (target.place (Shape.indexAt target.shape.toList k)) :=
    fun hk => hhosts.elementOffset (Shape.indexAt_below (by omega) _)
  unfold copyWrites
  rw [List.pairwise_map]
  refine List.pairwise_lt_range.imp_of_mem fun {p q} hp hq hlt => ?_
  rw [List.mem_range] at hp hq
  unfold Bytes.Apart
  rw [Bytes.length_slice, Bytes.length_slice]
  refine hseparate (hoffset hp) (hoffset hq) fun heq => ?_
  have hposition := congrArg (Shape.position target.shape.toList) heq
  rw [Shape.position_indexAt hp, Shape.position_indexAt hq] at hposition
  omega

private theorem copy_eq_setContents (h : c.copy source target = (.ok (), c')) :
    (c.validate source = .ok () ∧ c.validate target = .ok ()) ∧ source.shape = target.shape ∧
      source.type = target.type ∧
      c' = c.setContents target ((c.contents target).writeAll (c.copyWrites source target)) := by
  unfold copy at h
  cases hread : checkCopy source target >>= fun _ => c.gather source with
  | error e => simp [hread] at h
  | ok elements =>
    replace h : c.scatter target elements = (.ok (), c') := by rwa [hread] at h
    obtain ⟨_, hcheck, hgather⟩ := Result.bind_eq_ok.1 hread
    have hshape : source.shape = target.shape := by
      rcases checkCopy_cases source target with ⟨-, hshape⟩ | ⟨e, he⟩
      · exact hshape
      · simp [he] at hcheck
    have htype : source.type = target.type := by
      by_contra hne
      simp [checkCopy, hne] at hcheck
    obtain ⟨_, hhost, -⟩ := Result.bind_eq_ok.1 hgather
    obtain ⟨_, _, hhost', -, -⟩ := updateHost_eq_ok h
    have hvalid := validate_of_host hhost
    have hvalid' := validate_of_host hhost'
    have hsource := hosts_of_validate hvalid
    have htarget := hosts_of_validate hvalid'
    obtain ⟨s, hs⟩ := hsource.span
    obtain ⟨s', hs'⟩ := htarget.span
    rw [hsource.gather (Tensor.offsets_of_span hs)] at hgather
    obtain rfl := Except.ok.inj hgather
    rw [htarget.scatter (Tensor.offsets_of_span hs') (by simp [htype])] at h
    refine ⟨⟨hvalid, hvalid'⟩, hshape, htype, ?_⟩
    rw [← (Prod.mk.inj h).2, hshape, htype, List.map_map, List.zip_map']
    rfl

/-- All elements are read before the first one is written. -/
theorem copy_eq_ok (h : c.copy source target = (.ok (), c')) : c.Assigns source target c' := by
  have hblank : c'.blank = c.blank := by
    have hcopy := c.blank_copy source target
    rwa [h] at hcopy
  obtain ⟨⟨hvalid, hvalid'⟩, hshape, htype, rfl⟩ := copy_eq_setContents h
  have htarget := hosts_of_validate hvalid'
  refine ⟨hblank, fun hseparate index hi => ?_, fun {id b b'} hb hb' i hne => ?_⟩
  · obtain ⟨id, hid⟩ : ∃ id, target.buffer = some id := by
      rw [← Option.ne_none_iff_exists']
      intro hnone
      have hempty := Tensor.numel_eq ((Tensor.validate_eq_ok.1 (validate_iff.1 hvalid').1).2.1 hnone).2
      have hpos := Shape.prod_pos_of_below hi
      omega
    obtain ⟨b, -, hb, -⟩ := buffer_of_validate hvalid' hid
    have hsize : ((c.contents target).writeAll (c.copyWrites source target)).size = (c.contents target).size :=
      Bytes.size_writeAll
    have hnew := hosts_setContents hvalid' hid hb hsize
    have hin : ∀ p ∈ c.copyWrites source target, p.1 + p.2.length ≤ (c.contents target).size := by
      intro p hp
      obtain ⟨index', hi', rfl⟩ := mem_copyWrites.1 hp
      rw [Bytes.length_slice]
      exact htarget.inside hi'
    have hwritten := Bytes.slice_writeAll ((copyWrites_apart hvalid' hseparate).imp .inr) hin
      (mem_copyWrites.2 ⟨index, hi, rfl⟩)
    rw [Bytes.length_slice] at hwritten
    refine ⟨_, (hosts_of_validate hvalid).bytesAt (by rw [hshape]; exact hi), ?_⟩
    rw [hnew.bytesAt hi, hwritten, htype]
  · rw [get?_setContents, hb] at hb'
    by_cases hid : target.buffer = some id
    · rw [if_pos hid] at hb'
      obtain rfl := Option.some.inj hb'
      refine ⟨hid, ?_⟩
      by_contra hno
      apply hne
      rw [← contents_eq hid hb]
      refine Bytes.getElem?_writeAll fun p hp => ?_
      obtain ⟨index, hi, rfl⟩ := mem_copyWrites.1 hp
      rw [Bytes.length_slice]
      by_contra hin
      exact hno ⟨index, _, htarget.elementOffset hi, by omega, by omega⟩
    · rw [if_neg hid] at hb'
      obtain rfl := Option.some.inj hb'
      exact absurd rfl hne

theorem copy_atomic (h : (c.copy source target).1 ≠ .ok ()) : (c.copy source target).2 = c := by
  unfold copy at h ⊢
  split
  · rfl
  · rename_i elements hread
    rw [hread] at h
    exact updateHost_atomic h

/-! ### Reading what has been assigned -/

/-- Accesses look at the buffer of the tensor and at no other. -/
private theorem host_congr (h : ∀ id, t.buffer = some id → c'.arena.get? id = c.arena.get? id) :
    c'.host t = c.host t := by
  unfold host check
  cases hid : t.buffer with
  | none => rfl
  | some id => simp only [h id hid]

private theorem toList_congr (h : c'.host t = c.host t) (type : ElementType) : c'.toList t type = c.toList t type := by
  unfold toList
  rw [h]

namespace Assigns

variable (h : c.Assigns source target c')
include h

private theorem get?_eq {id : BufferId} (hid : target.buffer ≠ some id) : c'.arena.get? id = c.arena.get? id := by
  have hsame : (c'.arena.get? id).map Buffer.blank = (c.arena.get? id).map Buffer.blank := by
    rw [← Workspace.get?_blank, ← Workspace.get?_blank, h.blank]
  cases hb : c.arena.get? id with
  | none =>
    rw [hb, Option.map_none, Option.map_eq_none_iff] at hsame
    exact hsame
  | some b =>
    obtain ⟨b', hb', hblank⟩ := get?_of_blank hsame hb
    have hcontents : b'.contents = b.contents := by
      apply Array.ext_getElem?
      intro i
      by_contra hne
      exact hid (h.outside hb hb' i hne).1
    obtain ⟨_, _, _, _, _⟩ := b
    obtain ⟨_, _, _, _, _⟩ := b'
    simp only [Buffer.blank, Buffer.mk.injEq] at hblank hcontents
    rw [hb', hblank.1, hcontents, hblank.2.2.1, hblank.2.2.2.1, hblank.2.2.2.2]

end Assigns

/-- All elements together read as those of the source did. -/
private theorem toList_of_copy (h : c.copy source target = (.ok (), c')) (hseparate : target.Separate)
    (type : ElementType) :
    c'.toList target type = c.toList source type := by
  have hassigns := copy_eq_ok h
  obtain ⟨⟨hsource, htarget⟩, hshape, htype, rfl⟩ := copy_eq_setContents h
  by_cases ht : target.type = type
  · have hold := hosts_of_validate hsource
    have hsize : ((c.contents target).writeAll (c.copyWrites source target)).size = (c.contents target).size :=
      Bytes.size_writeAll
    have hnew := hosts_of_validate (validate_setContents hsize htarget)
    obtain ⟨s, hs⟩ := hold.span
    obtain ⟨s', hs'⟩ := hnew.span
    rw [hnew.toList (Tensor.offsets_of_span hs') ht, hold.toList (Tensor.offsets_of_span hs) (htype.trans ht),
      List.map_map, List.map_map, hshape]
    congr 1
    apply List.map_congr_left
    intro k hk
    rw [List.mem_range] at hk
    have hi : List.Forall₂ (· < ·) (Shape.indexAt target.shape.toList k) target.shape.toList :=
      Shape.indexAt_below (by omega) k
    obtain ⟨bytes, hbytes, hbytes'⟩ := hassigns.inside hseparate hi
    rw [hnew.bytesAt hi] at hbytes'
    rw [hold.bytesAt (by rw [hshape]; exact hi)] at hbytes
    have hsame := (Except.ok.inj hbytes').trans (Except.ok.inj hbytes).symm
    rw [htype, ht] at hsame
    simp only [Function.comp_apply, hsame]
  · unfold toList
    rw [if_pos ht, if_pos (by rw [htype]; exact ht), htype]

end Context

/-! ### Contiguous copies -/

namespace Workspace

variable {w w' : Workspace} {source t : Tensor}

/-- `t` is a row-major copy of `source`, made in `w`, and `w'` is what is there afterwards. -/
structure Duplicates (w : Workspace) (source t : Tensor) (w' : Workspace) : Prop where
  shape : t.shape = source.shape
  type : t.type = source.type
  device : t.device = source.device
  offset : t.offset = 0
  canonical : Layout.canonical t.shape t.type = .ok t.layout
  empty : source.numel = .ok 0 → t.buffer = none ∧ t.ownership = false ∧ w' = w
  owner : source.numel ≠ .ok 0 → t.buffer = some w.resources.nextBuffer ∧ t.ownership = true ∧
    w'.context.arena.contains w.resources.nextBuffer = true
  toList : ∀ type, w'.context.toList t type = w.context.toList source type
  kept : ∀ {id}, id ≠ w.resources.nextBuffer → w'.context.arena.get? id = w.context.arena.get? id
  callerMemory : w'.resources.callerMemory = w.resources.callerMemory

/-- A new tensor is filled from a source that has nothing to do with its buffer. -/
private theorem toList_duplicate {w₁ : Workspace} {c' : Context} (hcopy : w₁.context.copy source t = (.ok (), c'))
    (hcanonical : Layout.canonical t.shape t.type = .ok t.layout)
    (hsame : ∀ id, source.buffer = some id → w₁.context.arena.get? id = w.context.arena.get? id)
    (type : ElementType) : c'.toList t type = w.context.toList source type :=
  (Context.toList_of_copy hcopy (Tensor.separate_of_canonical hcanonical) type).trans
    (Context.toList_congr (Context.host_congr hsame) type)

theorem contiguous_eq_ok (hold : ∀ id, source.buffer = some id → id ≠ w.resources.nextBuffer)
    (h : w.contiguous source = (.ok t, w')) : w.Duplicates source t w' := by
  have halloc := w.allocShape_allocated source.shape source.type source.device
  unfold contiguous duplicate at h
  generalize w.allocShape source.shape source.type source.device = outcome at h halloc
  cases halloc with
  | stop e => simp at h
  | refuse failed => simp [Result.reject] at h
  | @empty l numel canonical cpu =>
    have hshape : l.shape = source.shape := (Layout.distance_canonical canonical).1
    have hcanonical : Layout.canonical l.shape source.type = .ok l := by rwa [hshape]
    simp only at h
    split at h
    · rename_i c' hcopy
      simp only [Prod.mk.injEq, Except.ok.injEq] at h
      obtain ⟨rfl, rfl⟩ := h
      obtain ⟨-, -, -, hc'⟩ := Context.copy_eq_setContents hcopy
      obtain rfl : c' = w.context := hc'
      exact {
        shape := hshape
        type := rfl
        device := rfl
        offset := rfl
        canonical := hcanonical
        empty := fun _ => ⟨rfl, rfl, rfl⟩
        owner := fun hne => absurd numel hne
        toList := toList_duplicate hcopy hcanonical fun _ _ => rfl
        kept := fun _ => rfl
        callerMemory := rfl }
    · simp at h
  | @make n l b r made =>
    have hshape := made.shape_eq
    simp only at h
    split at h
    · rename_i c' hcopy
      simp only [Prod.mk.injEq, Except.ok.injEq] at h
      obtain ⟨rfl, rfl⟩ := h
      have hassigns := Context.copy_eq_ok hcopy
      have hkept : ∀ {id}, id ≠ w.resources.nextBuffer → c'.arena.get? id = w.context.arena.get? id := by
        intro id hne
        rw [hassigns.get?_eq fun hid => hne (Option.some.inj hid).symm, get?_insertNext, if_neg hne]
      have hheld : c'.Keeps (w.nextOwner source.type source.device l) w.resources.nextBuffer :=
        made.keeps.of_blank (congrArg (·.allocator) hassigns.blank) (by
          rw [← get?_blank, ← get?_blank, hassigns.blank])
      exact {
        shape := hshape
        type := rfl
        device := rfl
        offset := rfl
        canonical := made.owns.canonical
        empty := fun hempty => by
          have hn := Except.ok.inj (hempty.symm.trans made.numel)
          have := made.pos
          omega
        owner := fun _ => ⟨rfl, rfl, hheld.contains⟩
        toList := toList_duplicate hcopy made.owns.canonical fun id hid => by
          rw [get?_insertNext, if_neg (hold id hid)]
        kept := hkept
        callerMemory := by
          obtain ⟨_, -, -, -, -, hr⟩ := Buffer.allocate_eq_ok made.allocate
          rw [insertNext, hr]
          rfl }
    · simp at h

end Workspace

/-! ### Sessions -/

namespace Session

open Workspace

variable {s : Session} {k : Nat} {c : Context} {home : BufferId → Option Nat}

/-- No context holds a buffer of this name, and no tensor refers to it. -/
def Unknown (s : Session) (id : BufferId) : Prop :=
  (∀ k c, s.context? k = some c → c.arena.get? id = none) ∧ ∀ x t, s.tensor? x = some t → t.buffer ≠ some id

theorem Coherent.unknown_nextBuffer (h : Coherent home s) : s.Unknown s.resources.nextBuffer := by
  refine ⟨fun k c hc => Table.contains_eq_false.1 ?_, fun x t ht hid => ?_⟩
  · rw [← Bool.not_eq_true]
    intro hheld
    exact Nat.lt_irrefl _ (h.named (h.held hc hheld)).1
  · obtain ⟨k, hk⟩ := h.bound ht hid
    exact Nat.lt_irrefl _ (h.named hk).1

/-- A copy in any context is an assignment of all elements at once, and changes nothing if it fails. In every session
that can come about, a contiguous copy of a tensor whose buffer has been made is a canonical one with the same elements,
in a buffer that was unknown before. -/
theorem Run.copy_assigns (h : Run home s) (c : Context) (source : Tensor) :
    (∀ target, (∀ c', c.copy source target = (.ok (), c') → c.Assigns source target c') ∧
      ∀ e, (c.copy source target).1 = .error e → (c.copy source target).2 = c) ∧
    ((∀ id, source.buffer = some id → id < s.resources.nextBuffer) →
      ∀ t w', contiguous ⟨c, s.resources⟩ source = (.ok t, w') →
        Duplicates ⟨c, s.resources⟩ source t w' ∧ s.Unknown s.resources.nextBuffer) := by
  refine ⟨fun target => ⟨fun c' => Context.copy_eq_ok, fun e he => Context.copy_atomic (by simp [he])⟩,
    fun hmade t w' hok => ?_⟩
  exact ⟨contiguous_eq_ok (fun id hid => Nat.ne_of_lt (hmade id hid)) hok, h.coherent.unknown_nextBuffer⟩

/-! ### A tensor that is shifted over itself -/

/-- Four numbers, the first three of them and the last three, and all of them as a matrix that is transposed. -/
def shift : List Event := [.build {},
  .command 0 (.ofList "a" .f32 [0x3f800000#32, 0x40000000#32, 0x40400000#32, 0x40800000#32] [4] .cpu),
  .command 0 (.view "x" "a" (.slice 0 0 3)), .command 0 (.view "y" "a" (.slice 0 1 4)),
  .command 0 (.view "m" "a" (.reshape [2, 2])), .command 0 (.view "v" "m" .transpose)]

theorem shift_assigns : ∃ s c x y v c' t w', initial.performAll shift = some s ∧ s.context? 0 = some c ∧
    s.tensor? "x" = some x ∧ s.tensor? "y" = some y ∧ s.tensor? "v" = some v ∧ y.Separate ∧
    c.copy x y = (.ok (), c') ∧ c.Assigns x y c' ∧ contiguous ⟨c, s.resources⟩ v = (.ok t, w') ∧
    Duplicates ⟨c, s.resources⟩ v t w' ∧ s.Unknown s.resources.nextBuffer := by
  obtain ⟨s, hs⟩ : ∃ s, initial.performAll shift = some s := Option.isSome_iff_exists.1 rfl
  have hcontext : ((initial.performAll shift).bind (·.context? 0)).isSome = true := rfl
  have hcopy : ((initial.performAll shift).bind fun s => do
      return ((← s.context? 0).copy (← s.tensor? "x") (← s.tensor? "y")).1) = some (.ok ()) := rfl
  have hlayout : ((initial.performAll shift).bind (·.tensor? "y")).map (fun y =>
      decide (Layout.canonical y.shape y.type = .ok y.layout)) = some true := rfl
  have hmade : ((initial.performAll shift).bind (·.tensor? "v")).map (·.buffer) = some (some 0) := rfl
  have hnext : (initial.performAll shift).map (·.resources.nextBuffer) = some 1 := rfl
  have hcontiguous : ((initial.performAll shift).bind fun s => do
      return (contiguous ⟨← s.context? 0, s.resources⟩ (← s.tensor? "v")).1.isOk) = some true := rfl
  simp only [hs, Option.bind_some, Option.map_some, Option.some.injEq] at hcontext hcopy hlayout hmade hnext hcontiguous
  obtain ⟨c, hc⟩ := Option.isSome_iff_exists.1 hcontext
  obtain ⟨y, hy, hlayout⟩ := Option.map_eq_some_iff.1 hlayout
  obtain ⟨v, hv, hid⟩ := Option.map_eq_some_iff.1 hmade
  simp only [hc, hy, hv, Option.bind_eq_bind, Option.bind_some, Option.bind_eq_some_iff, Option.pure_def,
    Option.some.injEq] at hcopy hcontiguous
  obtain ⟨x, hx, hcopy⟩ := hcopy
  obtain ⟨home, hrun⟩ := Run.initial.performAll hs
  have hok : c.copy x y = (.ok (), (c.copy x y).2) := Prod.ext hcopy rfl
  obtain ⟨t, ht⟩ : ∃ t, (contiguous ⟨c, s.resources⟩ v).1 = .ok t := by
    cases hr : (contiguous ⟨c, s.resources⟩ v).1 with
    | ok t => exact ⟨t, rfl⟩
    | error e => simp [hr, Except.isOk, Except.toBool] at hcontiguous
  have hdone : contiguous ⟨c, s.resources⟩ v = (.ok t, (contiguous ⟨c, s.resources⟩ v).2) := Prod.ext ht rfl
  have hduplicates := (hrun.copy_assigns c v).2 (fun id h => by
    obtain rfl : 0 = id := Option.some.inj (hid.symm.trans h)
    rw [hnext]
    decide) t _ hdone
  exact ⟨s, c, x, y, v, _, t, _, hs, hc, hx, hy, hv, Tensor.separate_of_canonical (of_decide_eq_true hlayout), hok,
    ((hrun.copy_assigns c x).1 y).1 _ hok, hdone, hduplicates⟩

end Session

end StridedTensor
