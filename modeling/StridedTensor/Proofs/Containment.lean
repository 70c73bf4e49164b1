import StridedTensor.Proofs.Access

/-!
# Containment

A tensor that passes the check of a context addresses bytes of its buffer only, whatever its strides and its offset
are (`contains_of_validate`). The check looks at one corner of the tensor, the last element; the walk over the
elements adds and subtracts strides. Both meet in `Tensor.place`: no element is farther away than the last one, and
the walk stops at places of elements only.
-/

namespace StridedTensor.Context

variable {c : Context} {t : Tensor} {contents : Bytes}

/-! ### Accesses without a fault -/

namespace Hosts

theorem get_sound (h : c.Hosts t contents) (index : List Nat) : (c.get t index).Sound := by
  by_cases hi : List.Forall₂ (· < ·) index t.shape.toList
  · rw [h.get hi]
    exact .ok _
  · unfold Context.get
    rw [Tensor.elementOffset_of_not_below hi]
    exact .reject _

theorem set_sound (h : c.Hosts t contents) (index : List Nat) (v : Scalar) : (c.set t index v).1.Sound := by
  by_cases hi : List.Forall₂ (· < ·) index t.shape.toList
  · rw [h.set hi]
    exact .ok _
  · unfold Context.set
    rw [Tensor.elementOffset_of_not_below hi]
    exact .reject _

theorem toList_sound (h : c.Hosts t contents) (type : ElementType) : (c.toList t type).Sound := by
  by_cases ht : t.type = type
  · obtain ⟨offsets, ho, -⟩ := h.offsets
    rw [h.toList ho ht]
    exact .ok _
  · unfold Context.toList
    rw [if_pos ht]
    exact .reject _

theorem fill_sound (h : c.Hosts t contents) (v : Scalar) : (c.fill t v).1.Sound := by
  obtain ⟨offsets, ho, -⟩ := h.offsets
  rw [h.fill ho]
  exact .ok _

theorem copy_sound (h : c.Hosts t contents) {u : Tensor} {target : Bytes} (hu : c.Hosts u target) :
    (c.copy t u).1.Sound := by
  obtain ⟨offsets, ho, -⟩ := h.offsets
  obtain ⟨places, hp, -⟩ := hu.offsets
  unfold Context.copy checkCopy
  by_cases ht : t.type = u.type
  · by_cases hs : t.sameShape u = true
    · by_cases hd : (CopyDirection.between t.device u.device).isSupported = true
      · -- every gathered element has the size that the target's type asks for
        have hsize : ∀ e ∈ offsets.map fun o => contents.slice o t.type.size, e.length = u.type.size := by
          intro e he
          obtain ⟨o, -, rfl⟩ := List.mem_map.1 he
          rw [Bytes.length_slice, ht]
        rw [if_neg (by simpa using ht), if_neg (by simpa using hs), if_neg (by simpa using hd), Result.ok_bind,
          h.gather ho]
        show (c.scatter u _).1.Sound
        rw [hu.scatter hp hsize]
        exact .ok _
      · rw [if_neg (by simpa using ht), if_neg (by simpa using hs), if_pos (by simpa using hd)]
        exact .reject _
    · rw [if_neg (by simpa using ht), if_pos (by simpa using hs)]
      exact .reject _
  · rw [if_pos ht]
    exact .reject _

end Hosts

/-! ### The main statement -/

/-- Every computation of addresses for the tensor stays in 64 bits, every place lies in the span, both ends of the
span are attained if there are elements, and the span lies in the buffer. -/
structure Contains (c : Context) (t : Tensor) (s : Span) (places : List Nat) : Prop where
  span : t.span = .ok s
  numel : t.numel = .ok places.length
  offsets : t.offsets = .ok places
  buffer : ∀ id, t.buffer = some id → ∃ b, c.arena.get? id = some b ∧ s.stop ≤ b.size
  bounds : ∀ o ∈ places, s.start ≤ o ∧ o + t.type.size ≤ s.stop
  elementOffset : ∀ index, List.Forall₂ (· < ·) index t.shape.toList → ∃ o ∈ places, t.elementOffset index = .ok o
  start_mem : places ≠ [] → s.start ∈ places
  stop_mem : places ≠ [] → ∃ o ∈ places, o + t.type.size = s.stop

private theorem contains_of_span {s : Span} (h : t.span = .ok s)
    (hb : ∀ id, t.buffer = some id → ∃ b, c.arena.get? id = some b ∧ s.stop ≤ b.size) :
    ∃ places, c.Contains t s places := by
  have ho := Tensor.offsets_of_span h
  have hmem {o : Nat} := Tensor.mem_offsets (o := o) h ho
  obtain ⟨n, hn⟩ := Tensor.numel_of_span h
  have hpos : (List.range t.shape.toList.prod).map (fun k => t.place (Shape.indexAt t.shape.toList k)) ≠ [] →
      0 < t.shape.toList.prod := by
    intro hne
    apply Nat.pos_of_ne_zero
    intro h0
    exact hne (by rw [h0]; rfl)
  refine ⟨_, ⟨h, ?_, ho, hb, ?_, ?_, ?_, ?_⟩⟩
  · rw [List.length_map, List.length_range, ← Tensor.numel_eq hn]
    exact hn
  · intro o hm
    obtain ⟨index, hi, rfl⟩ := hmem.1 hm
    exact Tensor.place_mem_span h hi
  · intro index hi
    exact ⟨_, hmem.2 ⟨index, hi, rfl⟩, Tensor.elementOffset_of_span h hi⟩
  · -- the first element lies at the start, the one at the largest index before the end
    intro hne
    refine hmem.2 ⟨_, Shape.zeros_below (hpos hne), ?_⟩
    rw [Tensor.span_start h, Tensor.place, Layout.distance_replicate_zero, Nat.add_zero]
  · intro hne
    have hi := Shape.last_below (hpos hne)
    refine ⟨_, hmem.2 ⟨_, hi, rfl⟩, ?_⟩
    obtain ⟨-, rfl⟩ := Tensor.span_of_below h hi
    have hlast := Layout.distance_last t.layout.axes
    rw [Layout.map_fst_axes] at hlast
    rw [Tensor.place, Tensor.shape, hlast]

/-- A tensor that passes the check addresses bytes of its buffer only, and no access to it, alone or together with
another one that passes, is stopped by a fault. -/
theorem contains_of_validate (h : c.validate t = .ok ()) :
    (∃ s places, c.Contains t s places) ∧
      (∀ index type v, (c.get t index).Sound ∧ (c.set t index v).1.Sound ∧ (c.toList t type).Sound ∧
        (c.fill t v).1.Sound) ∧
      ∀ u, c.validate u = .ok () → (c.copy t u).1.Sound := by
  have hc := hosts_of_validate h
  refine ⟨?_, ?_, ?_⟩
  · obtain ⟨s, hs⟩ := hc.span
    have hb : ∀ id, t.buffer = some id → ∃ b, c.arena.get? id = some b ∧ s.stop ≤ b.size := by
      intro id hid
      obtain ⟨b, s', hget, -, -, hs', hle⟩ := buffer_of_validate h hid
      obtain rfl : s' = s := by simpa [hs] using hs'.symm
      exact ⟨b, hget, hle⟩
    obtain ⟨places, hp⟩ := contains_of_span hs hb
    exact ⟨s, places, hp⟩
  · intro index type v
    exact ⟨hc.get_sound index, hc.set_sound index v, hc.toList_sound type, hc.fill_sound v⟩
  · intro u hu
    exact hc.copy_sound (hosts_of_validate hu)

/-! ### A tensor of repeated rows -/

/-- A context with one buffer of sixteen bytes. -/
def sixteenBytes : Context where
  allocator := 0
  arena := ⟨[(7, ⟨4096, Array.replicate 16 1, 64, .cpu, .owned 0⟩)], by simp⟩
  strict := true
  alignment := 64

/-- The last twelve of the bytes as three floats, repeated along a first dimension of stride zero, with a last
dimension of extent one that has the largest stride there is. -/
def repeatedRows : Tensor where
  buffer := some 7
  offset := 4
  type := .f32
  device := .cpu
  layout := Layout.ofEntries (Dims.build 3 (by decide) fun i => [2, 3, 1].getD i 0) [0, 4, 2 ^ 64 - 1]
  ownership := false

example : repeatedRows.offsets = .ok [4, 8, 12, 4, 8, 12] := by rfl

theorem contains_repeatedRows :
    sixteenBytes.validate repeatedRows = .ok () ∧
      (∃ s places, sixteenBytes.Contains repeatedRows s places) ∧
      (∀ index type v, (sixteenBytes.get repeatedRows index).Sound ∧ (sixteenBytes.set repeatedRows index v).1.Sound ∧
        (sixteenBytes.toList repeatedRows type).Sound ∧ (sixteenBytes.fill repeatedRows v).1.Sound) ∧
      ∀ u, sixteenBytes.validate u = .ok () → (sixteenBytes.copy repeatedRows u).1.Sound :=
  ⟨rfl, contains_of_validate rfl⟩

end StridedTensor.Context
