import StridedTensor.Context.Transfer
import StridedTensor.Proofs.Address

/-!
# Checked accesses

What `Context.check` asks of a tensor (`check_eq_ok`), and that nothing can go wrong after it: every element lies
inside the contents that the access works on (`hosts_of_validate`), so single elements, all elements, and copies are
read and written without a fault.
-/

namespace StridedTensor

/-! ### Bytes -/

namespace Bytes

/-- The bytes from `start` on, zero beyond the end of the block. -/
def slice (block : Bytes) (start count : Nat) : List UInt8 :=
  (List.range count).map fun i => block.getD (start + i) 0

@[simp] theorem length_slice (block : Bytes) (start count : Nat) : (slice block start count).length = count := by
  simp [slice]

theorem read?_of_le {block : Bytes} {start count : Nat} (h : start + count ≤ block.size) :
    block.read? start count = some (block.slice start count) := if_pos h

theorem element_of_le {block : Bytes} {start count : Nat} (h : start + count ≤ block.size) :
    block.element start count = .ok (block.slice start count) := by
  unfold element
  rw [read?_of_le h]

theorem setElement_of_le {block : Bytes} {start : Nat} {bytes : List UInt8} (h : start + bytes.length ≤ block.size) :
    block.setElement start bytes = .ok (block.write start bytes) := if_pos h

private theorem foldlM_setElement {α : Type} (start : α → Nat) (bytes : α → List UInt8) {xs : List α} {block : Bytes}
    (h : ∀ x ∈ xs, start x + (bytes x).length ≤ block.size) :
    xs.foldlM (fun block x => block.setElement (start x) (bytes x)) block =
      .ok (xs.foldl (fun block x => block.write (start x) (bytes x)) block) := by
  induction xs generalizing block with
  | nil => rfl
  | cons x xs ih =>
    rw [List.foldlM_cons, setElement_of_le (h x (by simp)), Result.ok_bind, List.foldl_cons]
    apply ih
    intro y hy
    rw [size_write]
    exact h y (by simp [hy])

end Bytes

@[simp] theorem ElementType.length_encode (t : ElementType) (bits : BitVec t.width) :
    (t.encode bits).length = t.size := by
  simp [encode]

@[simp] theorem Scalar.type_cast (v : Scalar) (t : ElementType) : (v.cast t).type = t := by
  unfold Scalar.cast
  split
  · assumption
  · cases t <;> rfl

theorem Scalar.length_toBytes_cast (v : Scalar) (t : ElementType) : (v.cast t).toBytes.length = t.size := by
  rw [toBytes, ElementType.length_encode, type_cast]

/-! ### The check -/

theorem Tensor.validate_eq_ok {t : Tensor} :
    t.validate = .ok () ↔ t.device.isCpu = true ∧ (t.buffer = none → t.ownership = false ∧ t.numel = .ok 0) ∧
      (t.ownership = true → t.zeroStride? = none) ∧ ∃ s, t.span = .ok s := by
  unfold validate Device.isAvailable
  cases t.device.isCpu with
  | false => simp
  | true =>
    cases t.buffer with
    | some id => cases t.ownership <;> cases t.zeroStride? <;> simp [Result.discard_eq_ok]
    | none =>
      cases t.ownership with
      | true => simp
      | false =>
        cases hn : t.numel with
        | error e => simp
        | ok n =>
          rcases Nat.eq_zero_or_pos n with rfl | h0
          · simp [Result.discard_eq_ok]
          · simp [h0, Nat.ne_of_gt h0]

private theorem Tensor.numel_avoids (t : Tensor) : t.numel.Avoids .access := .ofWord? (by decide) _

theorem Tensor.isContiguous_avoids (t : Tensor) : t.isContiguous.Avoids .access := by
  unfold isContiguous Layout.isContiguous Layout.isPacked
  refine .bind t.numel_avoids fun n _ => ?_
  split
  · exact .ok _
  · exact .ofWord? (by decide) _

/-- The test for contiguity counts the elements first. -/
theorem Tensor.numel_avoids_of_isContiguous {t : Tensor} {f : Fault} (h : t.isContiguous.Avoids f) :
    t.numel.Avoids f := by
  intro hn
  apply h
  unfold isContiguous Layout.isContiguous Layout.isPacked
  rw [show t.layout.shape.numel = Result.halt f from hn]
  rfl

private theorem Tensor.span_avoids {t : Tensor} {f : Fault} (h : t.numel.Avoids f) : t.span.Avoids f := by
  unfold span
  refine .bind h fun n _ => ?_
  split
  · exact .ok _
  · exact .bind (.ofSpanEnd? _) fun _ _ => .bind (.ofSpanEnd? _) fun _ _ => .bind (.ofSpanEnd? _) fun _ _ => .ok _

private theorem Tensor.validate_avoids {t : Tensor} {f : Fault} (h : t.numel.Avoids f) : t.validate.Avoids f := by
  have hspan : (discard t.span).Avoids f := .discard (Tensor.span_avoids h)
  have hnumel : (t.numel >>= fun n => if 0 < n then Result.reject .null else discard t.span).Avoids f := by
    refine .bind h fun n _ => ?_
    split
    · exact .reject _
    · exact hspan
  unfold validate Device.isAvailable
  cases t.device.isCpu with
  | false => exact .reject _
  | true =>
    cases t.buffer with
    | some id =>
      cases t.ownership with
      | false => exact hspan
      | true =>
        cases t.zeroStride? with
        | none => exact hspan
        | some dim => exact .reject _
    | none =>
      cases t.ownership with
      | false => exact hnumel
      | true => exact .reject _

namespace Context

variable {c : Context} {t : Tensor}

/-- A tensor passes the check if it is sound in itself, and its buffer, if it has one, is held here, on the same
device, and not shorter than the span. -/
theorem check_eq_ok {found : Option Buffer} :
    c.check t = .ok found ↔ t.validate = .ok () ∧
      match t.buffer with
      | none => found = none
      | some id => ∃ b s, c.arena.get? id = some b ∧ b.device = t.device ∧ t.span = .ok s ∧ s.stop ≤ b.size ∧
          found = some b := by
  unfold check
  rw [Result.bind_eq_ok]
  constructor
  · rintro ⟨_, hv, h⟩
    refine ⟨hv, ?_⟩
    cases hid : t.buffer with
    | none =>
      rw [hid] at h
      exact (Result.pure_eq_ok.1 h).symm
    | some id =>
      rw [hid] at h
      cases hb : c.arena.get? id with
      | none => simp [hb] at h
      | some b =>
        simp only [hb] at h
        by_cases hd : b.device = t.device
        · rw [if_neg (by simpa using hd), Result.bind_eq_ok] at h
          obtain ⟨s, hs, h⟩ := h
          by_cases hlt : b.size < s.stop
          · simp [hlt] at h
          · rw [if_neg hlt] at h
            exact ⟨b, s, hb, hd, hs, by omega, (Result.pure_eq_ok.1 h).symm⟩
        · simp [hd] at h
  · rintro ⟨hv, h⟩
    refine ⟨(), hv, ?_⟩
    cases hid : t.buffer with
    | none =>
      rw [hid] at h
      exact Result.pure_eq_ok.2 h.symm
    | some id =>
      rw [hid] at h
      obtain ⟨b, s, hb, hd, hs, hle, rfl⟩ := h
      simp only [hb]
      rw [if_neg (by simpa using hd), hs, Result.ok_bind, if_neg (by omega)]
      rfl

theorem check_avoids {f : Fault} (h : t.numel.Avoids f) : (c.check t).Avoids f := by
  unfold check
  refine .bind (Tensor.validate_avoids h) fun _ _ => ?_
  split
  · exact .ok _
  · split
    · exact .reject _
    · split
      · exact .reject _
      · refine .bind (Tensor.span_avoids h) fun s _ => ?_
        split
        · exact .reject _
        · exact .ok _

theorem validate_avoids {f : Fault} (h : t.numel.Avoids f) : (c.validate t).Avoids f := .discard (check_avoids h)

theorem validate_eq_ok : c.validate t = .ok () ↔ ∃ found, c.check t = .ok found := Result.discard_eq_ok

theorem validate_iff :
    c.validate t = .ok () ↔ t.validate = .ok () ∧ ∀ id, t.buffer = some id →
      ∃ b s, c.arena.get? id = some b ∧ b.device = t.device ∧ t.span = .ok s ∧ s.stop ≤ b.size := by
  rw [validate_eq_ok]
  simp only [check_eq_ok]
  cases t.buffer with
  | none => simp
  | some id =>
    constructor
    · rintro ⟨found, hv, b, s, hb, hd, hs, hle, -⟩
      refine ⟨hv, fun id' hid => ?_⟩
      obtain rfl : id = id' := by simpa using hid
      exact ⟨b, s, hb, hd, hs, hle⟩
    · rintro ⟨hv, h⟩
      obtain ⟨b, s, hb, hd, hs, hle⟩ := h id rfl
      exact ⟨some b, hv, b, s, hb, hd, hs, hle, rfl⟩

/-- The buffer behind a checked tensor, which is on the host and holds the whole span. -/
theorem buffer_of_validate (h : c.validate t = .ok ()) {id : BufferId} (hid : t.buffer = some id) :
    ∃ b s, c.arena.get? id = some b ∧ c.check t = .ok (some b) ∧ b.hostBytes = .ok b.contents ∧ t.span = .ok s ∧
      s.stop ≤ b.size := by
  obtain ⟨found, hf⟩ := validate_eq_ok.1 h
  obtain ⟨hv, hb⟩ := check_eq_ok.1 hf
  rw [hid] at hb
  obtain ⟨b, s, hb, hd, hs, hle, rfl⟩ := hb
  have hcpu : b.device.isCpu = true := by
    rw [hd]; exact (Tensor.validate_eq_ok.1 hv).1
  exact ⟨b, s, hb, hf, if_pos hcpu, hs, hle⟩

/-- The contents of the buffer behind a tensor; none without a buffer. -/
def contents (c : Context) (t : Tensor) : Bytes := (t.buffer.bind c.arena.get?).elim #[] Buffer.contents

theorem contents_eq {id : BufferId} {b : Buffer} (hid : t.buffer = some id) (hb : c.arena.get? id = some b) :
    c.contents t = b.contents := by
  unfold contents
  rw [hid, Option.bind_some, hb]
  rfl

/-! ### Changed contents -/

theorem get?_setContents (c : Context) (t : Tensor) (contents : Bytes) (id : BufferId) :
    (c.setContents t contents).arena.get? id =
      if t.buffer = some id then (c.arena.get? id).map fun b => { b with contents } else c.arena.get? id := by
  unfold setContents
  cases hid : t.buffer with
  | none => rfl
  | some id' =>
    cases hb : c.arena.get? id' with
    | none =>
      by_cases h : id' = id
      · subst h
        simp [hb]
      · simp [hb, h]
    | some b =>
      simp only [hb, Table.get?_replace, Table.contains, Option.isSome_some, and_true]
      by_cases h : id = id'
      · subst h
        simp [hb]
      · have : ¬ id' = id := fun e => h e.symm
        simp [h, this]

theorem contents_setContents {contents : Bytes} {id : BufferId} {b : Buffer} (hid : t.buffer = some id)
    (hb : c.arena.get? id = some b) : (c.setContents t contents).contents t = contents := by
  have hget : (c.setContents t contents).arena.get? id = some { b with contents } := by
    rw [get?_setContents, if_pos hid, hb]
    rfl
  rw [contents_eq hid hget]

/-- The check looks at the size of the contents only. -/
theorem validate_setContents {u : Tensor} {contents : Bytes} (hsize : contents.size = (c.contents t).size)
    (h : c.validate u = .ok ()) : (c.setContents t contents).validate u = .ok () := by
  obtain ⟨hv, hb⟩ := validate_iff.1 h
  refine validate_iff.2 ⟨hv, fun id hid => ?_⟩
  obtain ⟨b, s, hget, hd, hs, hle⟩ := hb id hid
  by_cases hsame : t.buffer = some id
  · rw [contents_eq hsame hget] at hsize
    refine ⟨{ b with contents }, s, ?_, hd, hs, ?_⟩
    · rw [get?_setContents, if_pos hsame, hget]
      rfl
    · rw [Buffer.size, hsize]
      exact hle
  · exact ⟨b, s, by rw [get?_setContents, if_neg hsame, hget], hd, hs, hle⟩

/-- What runs on a detached output and succeeds has found it in order, and its contents are stored. -/
theorem withOutput_eq_ok {c' : Context} {f : Arena → Buffer → Result Bytes} (h : c.withOutput t f = (.ok (), c')) :
    ∃ id b contents, c.validate t = .ok () ∧ t.buffer = some id ∧ c.arena.get? id = some b ∧
      f (c.arena.erase id) b = .ok contents ∧ c' = c.setContents t contents := by
  unfold withOutput Arena.withOutput at h
  cases hcheck : c.check t with
  | error e => simp [hcheck] at h
  | ok found =>
    cases hid : t.buffer with
    | none => simp [hcheck, hid] at h
    | some id =>
      have hv := validate_eq_ok.2 ⟨found, hcheck⟩
      obtain ⟨b, s, hb, -, hhost, -⟩ := buffer_of_validate hv hid
      simp only [hcheck, hid, hb, hhost, Result.ok_bind] at h
      cases hf : f (c.arena.erase id) b with
      | error e => simp [hf] at h
      | ok contents =>
        simp only [hf, Prod.mk.injEq, true_and] at h
        refine ⟨id, b, contents, hv, rfl, hb, hf, ?_⟩
        rw [← h, setContents, hid]
        simp only [hb]

theorem withOutput_avoids {f : Arena → Buffer → Result Bytes} {fault : Fault} (ht : t.numel.Avoids fault)
    (hf : ∀ id b, c.validate t = .ok () → t.buffer = some id → c.arena.get? id = some b →
      (f (c.arena.erase id) b).Avoids fault) : (c.withOutput t f).1.Avoids fault := by
  have hcheck := check_avoids (c := c) ht
  unfold withOutput Arena.withOutput
  cases hc : c.check t with
  | error e =>
    rw [hc] at hcheck
    exact hcheck.error
  | ok found =>
    cases hid : t.buffer with
    | none => exact .reject _
    | some id =>
      have hv := validate_eq_ok.2 ⟨found, hc⟩
      obtain ⟨b, s, hb, -, hhost, -⟩ := buffer_of_validate hv hid
      have hfb := hf id b hv hid hb
      simp only [hb, hhost, Result.ok_bind]
      cases hr : f (c.arena.erase id) b with
      | error e =>
        rw [hr] at hfb
        exact hfb.error
      | ok contents => exact .ok _

/-- `contents` is what accesses to the tensor work on, and every element lies inside. -/
structure Hosts (c : Context) (t : Tensor) (contents : Bytes) : Prop where
  host : c.host t = .ok contents
  span : ∃ s, t.span = .ok s
  inside : ∀ {index}, List.Forall₂ (· < ·) index t.shape.toList → t.place index + t.type.size ≤ contents.size

theorem hosts_of_validate (h : c.validate t = .ok ()) : c.Hosts t (c.contents t) := by
  cases hid : t.buffer with
  | none =>
    obtain ⟨found, hf⟩ := validate_eq_ok.1 h
    obtain ⟨hv, hn⟩ := check_eq_ok.1 hf
    rw [hid] at hn
    obtain ⟨-, hempty, -, hs⟩ := Tensor.validate_eq_ok.1 hv
    refine ⟨?_, hs, ?_⟩
    · unfold host contents
      rw [hf, hn, hid]
      rfl
    · -- there are no elements
      intro index hi
      have hprod := Tensor.numel_eq (hempty hid).2
      have := Shape.prod_pos_of_below hi
      omega
  | some id =>
    obtain ⟨b, s, hb, hf, hhost, hs, hle⟩ := buffer_of_validate h hid
    rw [contents_eq hid hb]
    refine ⟨?_, ⟨s, hs⟩, fun hi => Nat.le_trans (Tensor.place_mem_span hs hi).2 hle⟩
    unfold host
    rw [hf]
    exact hhost

/-! ### Accesses to what is hosted -/

namespace Hosts

variable {contents : Bytes}

theorem offsets (h : c.Hosts t contents) :
    ∃ offsets, t.offsets = .ok offsets ∧ ∀ o ∈ offsets, o + t.type.size ≤ contents.size := by
  obtain ⟨s, hs⟩ := h.span
  refine ⟨_, Tensor.offsets_of_span hs, ?_⟩
  intro o ho
  obtain ⟨index, hi, rfl⟩ := (Tensor.mem_offsets hs (Tensor.offsets_of_span hs)).1 ho
  exact h.inside hi

theorem elementOffset (h : c.Hosts t contents) {index : List Nat}
    (hi : List.Forall₂ (· < ·) index t.shape.toList) : t.elementOffset index = .ok (t.place index) := by
  obtain ⟨s, hs⟩ := h.span
  exact Tensor.elementOffset_of_span hs hi

theorem get (h : c.Hosts t contents) {index : List Nat} (hi : List.Forall₂ (· < ·) index t.shape.toList) :
    c.get t index = .ok ⟨t.type, t.type.decode (contents.slice (t.place index) t.type.size)⟩ := by
  unfold Context.get Scalar.ofBytes
  rw [h.elementOffset hi, Result.ok_bind, h.host, Result.ok_bind, Bytes.element_of_le (h.inside hi)]
  simp

theorem updateHost (h : c.Hosts t contents) {f : Bytes → Result Bytes} {contents' : Bytes}
    (hf : f contents = .ok contents') : c.updateHost t f = (.ok (), c.setContents t contents') := by
  unfold Context.updateHost
  rw [h.host, Result.ok_bind, hf]

theorem set (h : c.Hosts t contents) {index : List Nat} (hi : List.Forall₂ (· < ·) index t.shape.toList)
    (v : Scalar) :
    c.set t index v =
      (.ok (), c.setContents t (contents.write (t.place index) (v.cast t.type).toBytes)) := by
  unfold Context.set
  rw [h.elementOffset hi]
  apply h.updateHost
  apply Bytes.setElement_of_le
  rw [Scalar.length_toBytes_cast]
  exact h.inside hi

theorem toList (h : c.Hosts t contents) {offsets : List Nat} (ho : t.offsets = .ok offsets) {type : ElementType}
    (ht : t.type = type) :
    c.toList t type = .ok (offsets.map fun o => type.decode (contents.slice o type.size)) := by
  subst ht
  obtain ⟨offsets', ho', hle⟩ := h.offsets
  obtain rfl : offsets' = offsets := by simpa [ho] using ho'.symm
  unfold Context.toList
  rw [if_neg (by simp), h.host, Result.ok_bind, ho, Result.ok_bind]
  apply Result.mapM_eq_ok
  intro o hm
  rw [Bytes.element_of_le (hle o hm)]
  rfl

theorem gather (h : c.Hosts t contents) {offsets : List Nat} (ho : t.offsets = .ok offsets) :
    c.gather t = .ok (offsets.map fun o => contents.slice o t.type.size) := by
  obtain ⟨offsets', ho', hle⟩ := h.offsets
  obtain rfl : offsets' = offsets := by simpa [ho] using ho'.symm
  unfold Context.gather
  rw [h.host, Result.ok_bind, ho, Result.ok_bind]
  exact Result.mapM_eq_ok fun o hm => Bytes.element_of_le (hle o hm)

theorem fill (h : c.Hosts t contents) {offsets : List Nat} (ho : t.offsets = .ok offsets) (v : Scalar) :
    c.fill t v =
      (.ok (), c.setContents t
        (offsets.foldl (fun contents o => contents.write o (v.cast t.type).toBytes) contents)) := by
  obtain ⟨offsets', ho', hle⟩ := h.offsets
  obtain rfl : offsets' = offsets := by simpa [ho] using ho'.symm
  unfold Context.fill
  apply h.updateHost
  rw [ho, Result.ok_bind]
  apply Bytes.foldlM_setElement (fun o => o) fun _ => (v.cast t.type).toBytes
  intro o hm
  rw [Scalar.length_toBytes_cast]
  exact hle o hm

theorem scatter (h : c.Hosts t contents) {offsets : List Nat} (ho : t.offsets = .ok offsets)
    {elements : List (List UInt8)} (hsize : ∀ e ∈ elements, e.length = t.type.size) :
    c.scatter t elements =
      (.ok (), c.setContents t
        ((offsets.zip elements).foldl (fun contents p => contents.write p.1 p.2) contents)) := by
  obtain ⟨offsets', ho', hle⟩ := h.offsets
  obtain rfl : offsets' = offsets := by simpa [ho] using ho'.symm
  unfold Context.scatter
  apply h.updateHost
  rw [ho, Result.ok_bind]
  apply Bytes.foldlM_setElement Prod.fst Prod.snd
  rintro ⟨o, e⟩ hm
  rw [hsize e (List.of_mem_zip hm).2]
  exact hle o (List.of_mem_zip hm).1

end Hosts

end Context

end StridedTensor
