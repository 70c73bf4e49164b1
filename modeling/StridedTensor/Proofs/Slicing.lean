import StridedTensor.Proofs.Reading
import StridedTensor.Proofs.ViewMap
import StridedTensor.Session.Event

/-!
# Readable slices

A slice of a tensor that passes the check can be read if it has elements, and also if it has none but starts before the
end of the dimension of a tensor with elements. A slice that starts at the end of the dimension has no elements and is
an offset further: it can be read exactly if that offset is not beyond the end of the buffer
(`Context.slice_readable`). The last columns without any rows are such a slice that cannot be read
(`Session.noRows_unreadable`).
-/

namespace StridedTensor

private theorem Layout.le_lastDistance {axes : List Axis} {dim i n stride : Nat} (h : axes[dim]? = some (n, stride))
    (hi : i < n) :
    i * stride ≤ lastDistance axes := by
  induction axes generalizing dim with
  | nil => simp at h
  | cons a axes ih =>
    rw [lastDistance_cons]
    cases dim with
    | zero =>
      obtain rfl : a = (n, stride) := by simpa using h
      show i * stride ≤ (n - 1) * stride + lastDistance axes
      have hstep : i * stride ≤ (n - 1) * stride := Nat.mul_le_mul_right _ (by omega)
      omega
    | succ dim =>
      have hrest := ih h
      omega

/-! ### Slices -/

namespace Tensor

variable {t v : Tensor} {dim start stop : Nat}

theorem canSlice_iff : t.canSlice dim start stop = true ↔ dim < t.rank ∧ start ≤ stop ∧ stop ≤ t.shape.entry dim := by
  simp only [canSlice, Bool.and_eq_true, decide_eq_true_eq, and_assoc]

/-- Slicing fails only if the offset leaves 64 bits. -/
theorem slice_eq_ok : t.slice dim start stop = .ok v ↔ t.canSlice dim start stop = true ∧
    t.offset + start * t.strides.entry dim < Word.limit ∧
      v = { t.withLayout (t.layout.resize dim (stop - start)) with offset := t.offset + start * t.strides.entry dim } := by
  unfold slice
  by_cases hcan : t.canSlice dim start stop = true
  · simp only [hcan, Bool.not_true, Bool.false_eq_true, if_false, Result.bind_eq_ok, Result.ofWord?_eq_ok,
      Word.mul?_eq_some, Word.add?_eq_some, Result.pure_eq_ok, true_and]
    constructor
    · rintro ⟨d, ⟨-, rfl⟩, o, ⟨hlt, rfl⟩, rfl⟩
      exact ⟨hlt, rfl⟩
    · rintro ⟨hlt, rfl⟩
      exact ⟨_, ⟨by omega, rfl⟩, _, ⟨hlt, rfl⟩, rfl⟩
  · simp [hcan]

/-- Slices one after the other, each given by its dimension, its start and its end. -/
def slices (bounds : List (Nat × Nat × Nat)) : List ViewOp := bounds.map fun (dim, start, stop) => .slice dim start stop

private theorem keepsElements_slices (bounds : List (Nat × Nat × Nat)) :
    ∀ op ∈ slices bounds, op.keepsElements = true := by
  intro op hop
  obtain ⟨bound, -, rfl⟩ := List.mem_map.1 hop
  rfl

private theorem toList_shape_slice (h : t.slice dim start stop = .ok v) :
    v.shape.toList = t.shape.toList.set dim (stop - start) := by
  obtain ⟨hcan, -, rfl⟩ := slice_eq_ok.1 h
  exact Dims.toList_set _ _ _

private theorem forall₂_slice (h : t.slice dim start stop = .ok v) :
    List.Forall₂ (· ≤ ·) v.shape.toList t.shape.toList := by
  obtain ⟨-, hle, hstop⟩ := canSlice_iff.1 (slice_eq_ok.1 h).1
  rw [toList_shape_slice h, List.forall₂_iff_get]
  refine ⟨List.length_set, fun i hi hi' => ?_⟩
  rw [List.get_eq_getElem, List.get_eq_getElem, List.getElem_set]
  split
  · rename_i heq
    subst heq
    rw [Dims.entry_eq_getD, List.getD_eq_getElem?_getD, List.getElem?_eq_getElem hi', Option.getD_some] at hstop
    show stop - start ≤ t.shape.toList[dim]
    omega
  · exact Nat.le_refl _

private theorem numel_slice (h : t.slice dim start stop = .ok v) {n : Nat} (hn : t.numel = .ok n) :
    v.numel = .ok v.shape.toList.prod := by
  obtain ⟨m, hm⟩ := Word.product?_of_le (forall₂_slice h) (Result.ofWord?_eq_ok.1 hn)
  have hv : v.numel = .ok m := Result.ofWord?_eq_ok.2 hm
  rw [hv, ← numel_eq hv]

/-- Wherever a slice of a tensor with elements starts before the end of the dimension, there is an element. -/
private theorem slice_start {s : Span} (hs : t.span = .ok s) (hpos : 0 < t.shape.toList.prod) (hdim : dim < t.rank)
    (hlt : start < t.shape.entry dim) :
    t.offset + start * t.strides.entry dim + t.type.size ≤ s.stop ∧ s.stop < Word.limit := by
  obtain ⟨n, hn⟩ := numel_of_span hs
  obtain ⟨hlimit, rfl⟩ := (span_eq_ok_of_pos hn (by rwa [numel_eq hn])).1 hs
  have hlast := Layout.le_lastDistance (Layout.getElem?_axes hdim) hlt
  exact ⟨by simp only [strides]; omega, hlimit⟩

end Tensor

/-! ### Reading slices -/

namespace Context

variable {c : Context} {t v : Tensor} {dim start stop : Nat}

/-- The tensor passes the check, and reading it yields as many elements as its extents tell. -/
def Readable (c : Context) (t : Tensor) : Prop :=
  c.validate t = .ok () ∧ ∃ values, c.toList t t.type = .ok values ∧ values.length = t.shape.toList.prod

theorem readable_iff : c.Readable t ↔ c.validate t = .ok () := by
  refine ⟨And.left, fun h => ⟨h, ?_⟩⟩
  obtain ⟨places, values, hreads⟩ := reads_of_validate h
  have hlength := congrArg List.length hreads.get
  rw [List.length_map, List.length_map, Shape.length_indices] at hlength
  exact ⟨values, hreads.toList, hlength.symm⟩

/-- The check of a tensor without elements looks at its offset. -/
theorem validate_empty_slice (h : c.validate t = .ok ()) (hslice : t.slice dim start stop = .ok v)
    (hempty : v.shape.toList.prod = 0) :
    c.validate v = .ok () ↔ ∀ id b, t.buffer = some id → c.arena.get? id = some b → v.offset ≤ b.size := by
  obtain ⟨hvalid, hbuffer⟩ := validate_iff.1 h
  obtain ⟨hcpu, -, -, s, hs⟩ := Tensor.validate_eq_ok.1 hvalid
  obtain ⟨n, hn⟩ := Tensor.numel_of_span hs
  have hnumel : v.numel = .ok 0 := by rw [Tensor.numel_slice hslice hn, hempty]
  have hspan := Tensor.span_of_empty hnumel
  obtain ⟨-, -, rfl⟩ := Tensor.slice_eq_ok.1 hslice
  rw [validate_iff]
  constructor
  · rintro ⟨-, hv⟩ id b hid hb
    obtain ⟨b', s', hb', -, hs', hle⟩ := hv id hid
    obtain rfl : b = b' := Option.some.inj (hb.symm.trans hb')
    obtain rfl := Except.ok.inj (hs'.symm.trans hspan)
    exact hle
  · intro hle
    refine ⟨Tensor.validate_eq_ok.2 ⟨hcpu, fun _ => ⟨rfl, hnumel⟩, fun howned => Bool.noConfusion howned, _, hspan⟩, ?_⟩
    intro id hid
    obtain ⟨b, -, hb, hd, -, -⟩ := hbuffer id hid
    exact ⟨b, _, hb, hd, hspan, hle id b hid hb⟩

theorem validate_slice (h : c.validate t = .ok ()) (hslice : t.slice dim start stop = .ok v)
    (hpos : 0 < v.shape.toList.prod) : c.validate v = .ok () := by
  obtain ⟨-, -, -, s, hs⟩ := Tensor.validate_eq_ok.1 (validate_iff.1 h).1
  obtain ⟨n, hn⟩ := Tensor.numel_of_span hs
  have hnumel := Tensor.numel_slice hslice hn
  exact (Tensor.views_slice hslice).1.validate hpos (Word.product?_lt (Result.ofWord?_eq_ok.1 hnumel)) h

/-- As long as elements remain, so does what the check asks for. -/
theorem validate_slices {bounds : List (Nat × Nat × Nat)} (h : c.validate t = .ok ())
    (hchain : ViewOp.applyAll (Tensor.slices bounds) t = .ok v) (hpos : 0 < v.shape.toList.prod) :
    c.validate v = .ok () := by
  induction bounds generalizing t with
  | nil =>
    obtain rfl := Result.pure_eq_ok.1 hchain
    exact h
  | cons bound bounds ih =>
    unfold ViewOp.applyAll Tensor.slices at hchain
    rw [List.map_cons, List.foldlM_cons, Result.bind_eq_ok] at hchain
    obtain ⟨u, hslice, hrest⟩ := hchain
    have hviews := (Tensor.views_applyAll (Tensor.keepsElements_slices bounds) hrest).1
    exact ih (validate_slice h hslice (Shape.prod_pos_of_below (hviews.below (Shape.zeros_below hpos)))) hrest

/-- A slice of a tensor that passes the check can be read if it starts at an element. In general there is a slice if its
offset is in range, and it can be read exactly if it has elements, or if its offset is not beyond the end of the buffer;
the slice that remains after any number of steps can be read if it has elements. -/
theorem slice_readable (h : c.validate t = .ok ()) :
    (∀ {dim start stop}, t.canSlice dim start stop = true →
      (0 < t.shape.toList.prod → start < t.shape.entry dim → ∃ v, t.slice dim start stop = .ok v ∧ c.Readable v) ∧
      ((∃ v, t.slice dim start stop = .ok v) ↔ t.offset + start * t.strides.entry dim < Word.limit) ∧
      ∀ {v}, t.slice dim start stop = .ok v → (c.Readable v ↔ 0 < v.shape.toList.prod ∨
        ∀ id b, t.buffer = some id → c.arena.get? id = some b → v.offset ≤ b.size)) ∧
    ∀ {bounds : List (Nat × Nat × Nat)} {v},
      ViewOp.applyAll (Tensor.slices bounds) t = .ok v → 0 < v.shape.toList.prod → c.Readable v := by
  have hvalid := validate_iff.1 h
  obtain ⟨-, -, -, s, hs⟩ := Tensor.validate_eq_ok.1 hvalid.1
  have hreadable : ∀ {dim start stop v}, t.slice dim start stop = .ok v → (c.Readable v ↔ 0 < v.shape.toList.prod ∨
      ∀ id b, t.buffer = some id → c.arena.get? id = some b → v.offset ≤ b.size) := by
    intro dim start stop v hslice
    rw [readable_iff]
    rcases Nat.eq_zero_or_pos v.shape.toList.prod with hempty | hpos
    · rw [validate_empty_slice h hslice hempty, hempty]
      simp
    · exact ⟨fun _ => .inl hpos, fun _ => validate_slice h hslice hpos⟩
  refine ⟨fun {dim start stop} hcan => ⟨fun hpos hlt => ?_, ?_, hreadable⟩, fun {bounds v} hchain hpos => ?_⟩
  · -- the offset is that of an element
    obtain ⟨hfit, hlimit⟩ := Tensor.slice_start hs hpos (Tensor.canSlice_iff.1 hcan).1 hlt
    have hslice := Tensor.slice_eq_ok.2 ⟨hcan, by omega, rfl⟩
    refine ⟨_, hslice, (hreadable hslice).2 (.inr fun id b hid hb => ?_)⟩
    obtain ⟨b', s', hb', -, hs', hle⟩ := hvalid.2 id hid
    obtain rfl : b = b' := Option.some.inj (hb.symm.trans hb')
    obtain rfl : s = s' := Except.ok.inj (hs.symm.trans hs')
    show t.offset + start * t.strides.entry dim ≤ b.size
    omega
  · simp [Tensor.slice_eq_ok, hcan]
  · exact readable_iff.2 (validate_slices h hchain hpos)

/-! ### Slices of rows that lie on top of each other -/

/-- No columns from the second one on, no columns after the last one, and one of the two rows without its first
column. -/
theorem slice_readable_repeatedRows :
    sixteenBytes.validate repeatedRows = .ok () ∧
      (∃ v, repeatedRows.slice 1 1 1 = .ok v ∧ sixteenBytes.Readable v) ∧
      (∃ v, repeatedRows.slice 1 3 3 = .ok v ∧ v.offset = 16 ∧ sixteenBytes.Readable v) ∧
      ∃ v, ViewOp.applyAll (Tensor.slices [(1, 1, 3), (0, 1, 2)]) repeatedRows = .ok v ∧ sixteenBytes.Readable v := by
  have hvalid : sixteenBytes.validate repeatedRows = .ok () := rfl
  have hend : repeatedRows.slice 1 3 3 = .ok _ := rfl
  have hchain : ViewOp.applyAll (Tensor.slices [(1, 1, 3), (0, 1, 2)]) repeatedRows = .ok _ := rfl
  refine ⟨hvalid, ((slice_readable hvalid).1 (by decide)).1 (by decide) (by decide), ⟨_, hend, rfl, ?_⟩, _, hchain,
    (slice_readable hvalid).2 hchain (by decide)⟩
  refine (((slice_readable hvalid).1 (by decide)).2.2 hend).2 (.inr ?_)
  rintro id b ⟨⟩ ⟨⟩
  decide

end Context

/-! ### A slice that cannot be read -/

namespace Session

/-- Two rows of three floats, the last two columns, and those without any rows, from the end on. -/
def noRows : List Event := [.build {},
  .command 0 (.ofList "t" .f32 [0x3f800000#32, 0x40000000#32, 0x40400000#32, 0x40800000#32, 0x40a00000#32, 0x40c00000#32]
    [2, 3] .cpu),
  .command 0 (.view "c" "t" (.slice 1 1 3)), .command 0 (.view "e" "c" (.slice 0 2 2))]

/-- The columns pass the check, and the slice is one that is allowed, but its offset is beyond the end of the buffer. -/
theorem noRows_unreadable : ∃ s c x v, initial.performAll noRows = some s ∧ s.context? 0 = some c ∧
    s.tensor? "c" = some x ∧ c.Readable x ∧ x.canSlice 0 2 2 = true ∧ x.slice 0 2 2 = .ok v ∧
      v.shape.toList.prod = 0 ∧ c.validate v = Result.reject (.bounds ⟨28, 28⟩ 24) ∧ ¬ c.Readable v := by
  obtain ⟨s, hs⟩ : ∃ s, initial.performAll noRows = some s := Option.isSome_iff_exists.1 rfl
  have hchecks : ((initial.performAll noRows).bind fun s => do
      let c ← s.context? 0
      let x ← s.tensor? "c"
      let v ← (x.slice 0 2 2).toOption
      return (c.validate x, x.canSlice 0 2 2, v.shape.toList.prod, c.validate v)) =
        some (.ok (), true, 0, Result.reject (.bounds ⟨28, 28⟩ 24)) := rfl
  simp only [hs, Option.bind_eq_bind, Option.bind_some, Option.bind_eq_some_iff, Option.pure_def, Option.some.injEq,
    Prod.mk.injEq] at hchecks
  obtain ⟨c, hc, x, hx, v, hv, hvalid, hcan, hempty, hbounds⟩ := hchecks
  have hslice : x.slice 0 2 2 = .ok v := by
    cases hr : x.slice 0 2 2 with
    | ok u =>
      rw [hr] at hv
      rw [Option.some.inj hv]
    | error e => simp [hr, Except.toOption] at hv
  refine ⟨s, c, x, v, hs, hc, hx, Context.readable_iff.2 hvalid, hcan, hslice, hempty, hbounds, ?_⟩
  rw [Context.readable_iff, hbounds]
  exact Result.reject_ne_ok _ _

end Session

end StridedTensor
