import Mathlib.Data.List.GetD
import StridedTensor.Proofs.Slicing

/-!
# The algebra of views

The equations between view operations that are made one after the other (`Tensor.ViewLaws`, `Tensor.viewLaws`). They
are equalities of tensors: offset, extents and strides agree, and so does the type and the buffer. Each is shown for
layouts first, where a layout is determined by its axes (`Layout.ext_axes`, `Layout.ext_axis`); a tensor adds to that
the offset that slicing moves, and the overflow of that offset.
-/

namespace StridedTensor

namespace Layout

variable {l l' : Layout} {p q : List Nat} {n i j dim dim' k extent extent' stride : Nat}

/-! ### Permutations of dimensions -/

/-- The permutation that undoes `p`. -/
def inverse (p : List Nat) : List Nat := (List.range p.length).map p.idxOf

private theorem lt_length_of_perm (h : p.Perm (List.range n)) (hi : i < n) : i < p.length := by
  simpa [h.length_eq] using hi

private theorem nodup_of_perm (h : p.Perm (List.range n)) : p.Nodup := h.nodup_iff.2 List.nodup_range

private theorem getD_lt_of_perm (h : p.Perm (List.range n)) (hi : i < n) : p.getD i 0 < n := by
  have hlt := lt_length_of_perm h hi
  rw [List.getD_eq_getElem _ _ hlt]
  exact List.mem_range.1 (h.mem_iff.1 (List.getElem_mem hlt))

private theorem getD_inj_of_perm (h : p.Perm (List.range n)) (hi : i < n) (hj : j < n) (he : p.getD i 0 = p.getD j 0) :
    i = j := by
  rw [List.getD_eq_getElem _ _ (lt_length_of_perm h hi), List.getD_eq_getElem _ _ (lt_length_of_perm h hj)] at he
  exact (nodup_of_perm h).getElem_inj_iff.1 he

private theorem getD_comp (hi : i < q.length) : (q.map fun i => p.getD i 0).getD i 0 = p.getD (q.getD i 0) 0 := by
  simp [hi]

private theorem perm_comp (hp : p.Perm (List.range n)) (hq : q.Perm (List.range n)) :
    (q.map fun i => p.getD i 0).Perm (List.range n) := by
  have hself : (List.range n).map (fun i => p.getD i 0) = p := by
    apply List.ext_getElem
    · simpa using hp.length_eq.symm
    · intro k hk hk'
      simp [hk']
  have hmap := hq.map fun i => p.getD i 0
  rw [hself] at hmap
  exact hmap.trans hp

private theorem perm_inverse (h : p.Perm (List.range n)) : (inverse p).Perm (List.range n) := by
  have hlen : p.length = n := by simpa using h.length_eq
  have hself : p.map p.idxOf = List.range n := by
    apply List.ext_getElem
    · simpa using hlen
    · intro k hk hk'
      rw [List.getElem_map, List.getElem_range, (nodup_of_perm h).idxOf_getElem]
  have hmap := h.symm.map p.idxOf
  rw [hself] at hmap
  unfold inverse
  rwa [hlen]

private theorem getD_inverse (h : p.Perm (List.range n)) (hi : i < n) : (inverse p).getD i 0 = p.idxOf i := by
  have hlt := lt_length_of_perm h hi
  unfold inverse
  rw [List.getD_eq_getElem?_getD, List.getElem?_map, List.getElem?_range hlt, Option.map_some, Option.getD_some]

private theorem getD_getD_inverse (h : p.Perm (List.range n)) (hi : i < n) : p.getD ((inverse p).getD i 0) 0 = i := by
  have hmem : i ∈ p := h.mem_iff.2 (List.mem_range.2 hi)
  rw [getD_inverse h hi, List.getD_eq_getElem _ _ (List.idxOf_lt_length_iff.2 hmem), List.getElem_idxOf]

private theorem getD_inverse_getD (h : p.Perm (List.range n)) (hi : i < n) : (inverse p).getD (p.getD i 0) 0 = i := by
  rw [getD_inverse h (getD_lt_of_perm h hi), List.getD_eq_getElem _ _ (lt_length_of_perm h hi),
    (nodup_of_perm h).idxOf_getElem]

/-! ### Axes that move and shrink -/

theorem transpose_transpose (l : Layout) : l.transpose.transpose = l := by
  apply ext_axes
  rcases l.axes_transpose with ⟨hrank, h⟩ | ⟨lead, a, b, h, h'⟩
  · rcases l.transpose.axes_transpose with ⟨-, h'⟩ | ⟨lead, a, b, h', -⟩
    · rw [h', h]
    · have hlen : l.rank = lead.length + 2 := by rw [← length_axes, ← h, h', List.length_append]; rfl
      omega
  · rcases l.transpose.axes_transpose with ⟨hrank, -⟩ | ⟨lead', a', b', h₁, h₂⟩
    · rw [← length_axes, h', List.length_append] at hrank
      simp at hrank
    · rw [h'] at h₁
      obtain ⟨rfl, hlast⟩ := List.append_inj' h₁ rfl
      obtain ⟨rfl, rfl⟩ : b = a' ∧ a = b' := by simpa using hlast
      rw [h₂, h]

/-- The layout whose axis `i` is axis `p[i]` of the given one. -/
def reorder (l : Layout) (p : List Nat) : Layout := l.gather fun i => p.getD i 0

@[simp] theorem rank_reorder (l : Layout) (p : List Nat) : (l.reorder p).rank = l.rank := rfl

@[simp] theorem rank_resize (l : Layout) (dim extent : Nat) : (l.resize dim extent).rank = l.rank := rfl

private theorem axis_reorder (l : Layout) (p : List Nat) (h : k < l.rank) :
    (l.reorder p).axis k = l.axis (p.getD k 0) := by
  have ht : k < l.strides.rank := by rwa [l.same_rank]
  simp only [axis, reorder, gather, Dims.gather, Dims.entry_build, if_pos ht]
  rw [if_pos (show k < l.shape.rank from h)]

theorem reorder_reorder (hq : q.Perm (List.range l.rank)) :
    (l.reorder p).reorder q = l.reorder (q.map fun i => p.getD i 0) := by
  refine ext_axis (by simp) (by simp) fun i (hi : i < l.rank) => ?_
  rw [axis_reorder (l.reorder p) q hi, axis_reorder l p (getD_lt_of_perm hq hi), axis_reorder l _ hi,
    getD_comp (lt_length_of_perm hq hi)]

private theorem reorder_eq_self (h : ∀ i < l.rank, p.getD i 0 = i) : l.reorder p = l := by
  refine ext_axis (by simp) (by simp) fun i (hi : i < l.rank) => ?_
  rw [axis_reorder l p hi, h i hi]

private theorem axis_resize (l : Layout) (dim extent : Nat) (h : k < l.rank) :
    (l.resize dim extent).axis k = if k = dim then (extent, l.strides.entry k) else l.axis k := by
  simp only [axis, resize, Dims.set, Dims.entry_build]
  rw [if_pos (show k < l.shape.rank from h)]
  split <;> rfl

private theorem entry_resize (extent : Nat) (h : k < l.rank) :
    (l.resize dim extent).shape.entry k = if k = dim then extent else l.shape.entry k := by
  unfold resize Dims.set
  rw [Dims.entry_build]
  exact if_pos h

theorem resize_resize (l : Layout) (dim extent extent' : Nat) :
    (l.resize dim extent).resize dim extent' = l.resize dim extent' := by
  refine ext_axis (by simp) (by simp) fun i (hi : i < l.rank) => ?_
  rw [axis_resize (l.resize dim extent) dim extent' hi, axis_resize l dim extent hi, axis_resize l dim extent' hi]
  split <;> rfl

theorem resize_comm (h : dim ≠ dim') :
    (l.resize dim extent).resize dim' extent' = (l.resize dim' extent').resize dim extent := by
  refine ext_axis (by simp) (by simp) fun i (hi : i < l.rank) => ?_
  rw [axis_resize (l.resize dim extent) dim' extent' hi, axis_resize l dim extent hi,
    axis_resize (l.resize dim' extent') dim extent hi, axis_resize l dim' extent' hi]
  by_cases hd : i = dim
  · rw [if_neg (by omega), if_pos hd, if_pos hd]
    rfl
  · rw [if_neg hd, if_neg hd]
    rfl

private theorem reorder_resize (hp : p.Perm (List.range l.rank)) (hk : k < l.rank) :
    (l.reorder p).resize k extent = (l.resize (p.getD k 0) extent).reorder p := by
  refine ext_axis (by simp) (by simp) fun i (hi : i < l.rank) => ?_
  have hstride : (l.reorder p).strides.entry i = l.strides.entry (p.getD i 0) :=
    congrArg Prod.snd (axis_reorder l p hi)
  rw [axis_resize (l.reorder p) k extent hi, axis_reorder l p hi, axis_reorder (l.resize (p.getD k 0) extent) p hi,
    axis_resize l (p.getD k 0) extent (getD_lt_of_perm hp hi), hstride]
  by_cases hik : i = k
  · rw [if_pos hik, if_pos (by rw [hik])]
  · rw [if_neg hik, if_neg fun he => hik (getD_inj_of_perm hp hi hk he)]

/-! ### Axes that come and go -/

private theorem exists_insert_iff : (∃ l', l.insert dim extent stride = .ok l') ↔ dim ≤ l.rank ∧ l.rank < maxRank := by
  have hshape := Dims.exists_insert_iff l.shape dim extent
  have hstrides := Dims.exists_insert_iff l.strides dim stride
  rw [l.same_rank, ← hshape] at hstrides
  unfold rank
  rw [← hshape]
  unfold insert
  split
  · rename_i shape strides hs ht
    exact ⟨fun _ => ⟨shape, hs⟩, fun _ => ⟨_, rfl⟩⟩
  · rename_i e hs
    simp [hs]
  · rename_i e ht _
    rw [← hstrides]
    simp [ht]

private theorem rank_of_insert (h : l.insert dim extent stride = .ok l') : l'.rank = l.rank + 1 := by
  have hdim := (exists_insert_iff.1 ⟨l', h⟩).1
  rw [← length_axes, axes_insert h, List.length_insertIdx_of_le_length (by rwa [length_axes]), length_axes]

private theorem axis_of_insert (h : l.insert dim extent stride = .ok l') : l'.axis dim = (extent, stride) := by
  have hdim := (exists_insert_iff.1 ⟨l', h⟩).1
  have hget : l'.axes[dim]? = some (l'.axis dim) := getElem?_axes (by rw [rank_of_insert h]; omega)
  rw [axes_insert h, List.getElem?_insertIdx_self, length_axes, if_pos hdim] at hget
  exact (Option.some.inj hget).symm

private theorem erase_of_insert (h : l.insert dim extent stride = .ok l') : l'.erase dim = l := by
  have hdim := (exists_insert_iff.1 ⟨l', h⟩).1
  apply ext_axes
  rw [axes_erase (by rw [rank_of_insert h]; omega), axes_insert h, List.eraseIdx_insertIdx_self]

theorem squeeze_squeeze (l : Layout) : l.squeeze.squeeze = l.squeeze := by
  apply ext_axes
  rw [axes_squeeze, axes_squeeze, List.filter_filter]
  simp

private theorem filter_eraseIdx {α : Type} {f : α → Bool} {xs : List α} {i : Nat} {x : α} (h : xs[i]? = some x)
    (hx : f x = false) : (xs.eraseIdx i).filter f = xs.filter f := by
  obtain ⟨hi, rfl⟩ := List.getElem?_eq_some_iff.1 h
  have hsplit : xs.filter f = (xs.take i ++ xs[i] :: xs.drop (i + 1)).filter f := by
    rw [← List.drop_eq_getElem_cons hi, List.take_append_drop]
  rw [hsplit, List.eraseIdx_eq_take_drop_succ, List.filter_append, List.filter_append,
    List.filter_cons_of_neg (by simpa using hx)]

private theorem squeeze_erase (hdim : dim < l.rank) (h : l.shape.entry dim = 1) :
    (l.erase dim).squeeze = l.squeeze := by
  apply ext_axes
  rw [axes_squeeze, axes_squeeze, axes_erase hdim]
  exact filter_eraseIdx (getElem?_axes hdim) (by simp [axis, h])

/-- The dimensions of extent one. -/
def unitDims (l : Layout) : List Nat := (List.range l.rank).filter fun dim => l.shape.entry dim = 1

private theorem mem_unitDims : dim ∈ l.unitDims ↔ dim < l.rank ∧ l.shape.entry dim = 1 := by simp [unitDims]

private theorem nodup_unitDims (l : Layout) : l.unitDims.Nodup := List.nodup_range.filter _

private theorem squeeze_of_unitDims (h : l.unitDims = []) : l.squeeze = l := by
  apply ext_axes
  rw [axes_squeeze, List.filter_eq_self]
  intro a ha
  rw [axes_eq_map] at ha
  obtain ⟨dim, hdim, rfl⟩ := List.mem_map.1 ha
  have hnot : dim ∉ l.unitDims := by simp [h]
  rw [mem_unitDims, not_and] at hnot
  exact decide_eq_true (hnot (List.mem_range.1 hdim))

/-- Where a dimension other than `dim` stands when `dim` has been dropped. -/
def moveDown (dim other : Nat) : Nat := if dim < other then other - 1 else other

private theorem perm_unitDims_erase {dims : List Nat} (h : (dim :: dims).Perm l.unitDims) :
    (dims.map (moveDown dim)).Perm (l.erase dim).unitDims := by
  have hnodup : (dim :: dims).Nodup := h.nodup_iff.2 l.nodup_unitDims
  obtain ⟨hnot, hdims⟩ := List.nodup_cons.1 hnodup
  have hmem : ∀ other, other ∈ dim :: dims ↔ other < l.rank ∧ l.shape.entry other = 1 := fun other =>
    h.mem_iff.trans mem_unitDims
  have hentry : ∀ i < l.rank - 1, (l.erase dim).shape.entry i =
      if i < dim then l.shape.entry i else l.shape.entry (i + 1) := by
    intro i hi
    unfold erase Dims.erase
    rw [Dims.entry_build]
    exact if_pos hi
  refine (List.perm_ext_iff_of_nodup (hdims.map_on fun i hi j hj he => ?_) (nodup_unitDims _)).2 fun i => ?_
  · have hine : i ≠ dim := fun h => hnot (h ▸ hi)
    have hjne : j ≠ dim := fun h => hnot (h ▸ hj)
    unfold moveDown at he
    split at he <;> split at he <;> omega
  · rw [mem_unitDims, rank_erase, List.mem_map]
    constructor
    · rintro ⟨other, hother, rfl⟩
      have hne : other ≠ dim := fun h => hnot (h ▸ hother)
      obtain ⟨hlt, h1⟩ := (hmem other).1 (List.mem_cons_of_mem _ hother)
      obtain ⟨hdim, -⟩ := (hmem dim).1 List.mem_cons_self
      unfold moveDown
      split
      · refine ⟨by omega, ?_⟩
        rw [hentry _ (by omega), if_neg (by omega), Nat.sub_add_cancel (by omega), h1]
      · refine ⟨by omega, ?_⟩
        rw [hentry _ (by omega), if_pos (by omega), h1]
    · rintro ⟨hi, h1⟩
      rw [hentry i hi] at h1
      by_cases hlt : i < dim
      · rw [if_pos hlt] at h1
        have hin := (hmem i).2 ⟨by omega, h1⟩
        exact ⟨i, (List.mem_cons.1 hin).resolve_left (by omega), if_neg (by omega)⟩
      · rw [if_neg hlt] at h1
        have hin := (hmem (i + 1)).2 ⟨by omega, h1⟩
        exact ⟨i + 1, (List.mem_cons.1 hin).resolve_left (by omega), if_pos (by omega)⟩

/-! ### Axes that are stretched -/

private theorem stretch?_append {lead axes : List Axis} {targets entries : List Nat} (hlead : ∀ a ∈ lead, a.2 = 0)
    (h : stretch? (lead ++ axes) targets = some entries) :
    ∃ rest, stretch? axes (targets.drop lead.length) = some rest ∧ entries = List.replicate lead.length 0 ++ rest := by
  induction lead generalizing targets entries with
  | nil => exact ⟨entries, h, rfl⟩
  | cons a lead ih =>
    cases targets with
    | nil => simp [stretch?] at h
    | cons target targets =>
      obtain ⟨s, entries, hentries, rfl, hs⟩ := stretch?_cons_eq_some.1 h
      obtain ⟨rest, hrest, rfl⟩ := ih (fun b hb => hlead b (by simp [hb])) hentries
      have hzero : s = 0 := by
        have := hlead a (by simp)
        omega
      exact ⟨rest, hrest, by rw [hzero]; rfl⟩

private theorem stretch?_trans {axes : List Axis} {targets entries targets' entries' : List Nat}
    (h : stretch? axes targets = some entries) (h' : stretch? (targets.zip entries) targets' = some entries') :
    stretch? axes targets' = some entries' := by
  induction axes generalizing targets entries targets' entries' with
  | nil =>
    obtain rfl : entries = [] := by simpa [stretch?] using h.symm
    simpa [stretch?] using h'
  | cons a axes ih =>
    cases targets with
    | nil => simp [stretch?] at h
    | cons target targets =>
      obtain ⟨s, rest, hrest, rfl, hs⟩ := stretch?_cons_eq_some.1 h
      cases targets' with
      | nil => simp [stretch?] at h'
      | cons target' targets' =>
        obtain ⟨s', rest', hrest', rfl, hs'⟩ := stretch?_cons_eq_some.1 h'
        simp only at hs'
        exact stretch?_cons_eq_some.2 ⟨s', rest', ih hrest hrest', rfl, by omega⟩

theorem expand_expand {target target' : Shape} {l'' : Layout} (h : l.expand target = .ok l')
    (h' : l'.expand target' = .ok l'') : l.expand target' = .ok l'' := by
  obtain ⟨hle, entries, hs, rfl⟩ := expand_eq_ok.1 h
  obtain ⟨hle', entries', hs', rfl⟩ := expand_eq_ok.1 h'
  rw [axes_stretched hle hs] at hs'
  have hrank : (ofEntries target (List.replicate (target.rank - l.rank) 0 ++ entries)).rank = target.rank := rfl
  rw [hrank] at hle' hs' ⊢
  obtain ⟨rest, hrest, rfl⟩ := stretch?_append (fun a ha => List.eq_of_mem_replicate (List.of_mem_zip ha).2) hs'
  have hlead : ((target.toList.take (target.rank - l.rank)).zip (List.replicate (target.rank - l.rank) 0)).length =
      target.rank - l.rank := by
    rw [List.length_zip, List.length_take, Dims.length_toList, List.length_replicate]
    omega
  rw [hlead, List.drop_drop, show target'.rank - target.rank + (target.rank - l.rank) = target'.rank - l.rank by omega]
    at hrest
  refine expand_eq_ok.2 ⟨Nat.le_trans hle hle', rest, stretch?_trans hs hrest, ?_⟩
  rw [hlead, ← List.append_assoc, List.replicate_append_replicate,
    show target'.rank - target.rank + (target.rank - l.rank) = target'.rank - l.rank by omega]

end Layout

/-! ### Tensors -/

namespace Tensor

variable {t u v w : Tensor} {dim dim' start stop start' stop' k : Nat} {p q : List Nat}

theorem transpose_transpose (t : Tensor) : t.transpose.transpose = t.view :=
  congrArg t.withLayout t.layout.transpose_transpose

theorem permute_eq (h : p.Perm (List.range t.rank)) : t.permute p = .ok (t.withLayout (t.layout.reorder p)) := by
  have hlt : ∀ dim ∈ p, dim < t.rank := fun dim hdim => List.mem_range.1 (h.mem_iff.1 hdim)
  exact permute_eq_ok.2 ⟨⟨by simpa using h.length_eq, hlt, Layout.nodup_of_perm h⟩, rfl⟩

theorem exists_permute_iff : (∃ v, t.permute p = .ok v) ↔ p.Perm (List.range t.rank) := by
  constructor
  · rintro ⟨v, h⟩
    obtain ⟨⟨hlen, hlt, hnodup⟩, -⟩ := permute_eq_ok.1 h
    exact Layout.perm_range hlen hlt hnodup
  · intro h
    exact ⟨_, permute_eq h⟩

theorem permute_permute (hp : p.Perm (List.range t.rank)) (hq : q.Perm (List.range t.rank)) :
    (do (← t.permute p).permute q) = t.permute (q.map fun i => p.getD i 0) := by
  have hq' : q.Perm (List.range (t.withLayout (t.layout.reorder p)).rank) := hq
  rw [permute_eq hp, Result.ok_bind, permute_eq hq', permute_eq (Layout.perm_comp hp hq), ← Layout.reorder_reorder hq]
  rfl

theorem permute_eq_view (hp : p.Perm (List.range t.rank)) (h : ∀ i < t.rank, p.getD i 0 = i) :
    t.permute p = .ok t.view := by
  rw [permute_eq hp, Layout.reorder_eq_self h]
  rfl

theorem permute_inverse (h : p.Perm (List.range t.rank)) :
    (do (← t.permute p).permute (Layout.inverse p)) = .ok t.view ∧
      (do (← t.permute (Layout.inverse p)).permute p) = .ok t.view := by
  have hinverse := Layout.perm_inverse h
  rw [permute_permute h hinverse, permute_permute hinverse h]
  refine ⟨permute_eq_view (Layout.perm_comp h hinverse) fun i hi => ?_,
    permute_eq_view (Layout.perm_comp hinverse h) fun i hi => ?_⟩
  · rw [Layout.getD_comp (Layout.lt_length_of_perm hinverse hi), Layout.getD_getD_inverse h hi]
  · rw [Layout.getD_comp (Layout.lt_length_of_perm h hi), Layout.getD_inverse_getD h hi]

/-! ### Slices after other views -/

/-- The view in the layout `l` from `skip` bytes later on, unless that leaves 64 bits. -/
def shift (t : Tensor) (skip : Nat) (l : Layout) : Result Tensor :=
  if t.offset + skip < Word.limit then .ok { t.withLayout l with offset := t.offset + skip }
  else Result.halt .overflow

private theorem slice_eq_shift (h : t.canSlice dim start stop = true) :
    t.slice dim start stop = t.shift (start * t.strides.entry dim) (t.layout.resize dim (stop - start)) := by
  unfold slice shift
  simp only [h, Bool.not_true, Bool.false_eq_true, if_false, Word.mul?, Word.add?]
  by_cases hskip : start * t.strides.entry dim < Word.limit
  · rw [if_pos hskip]
    by_cases hoffset : t.offset + start * t.strides.entry dim < Word.limit
    · simp only [Result.ofWord?, Result.ok_bind, if_pos hoffset]
      rfl
    · simp only [Result.ofWord?, Result.ok_bind, if_neg hoffset]
      rfl
  · have hoffset : ¬ t.offset + start * t.strides.entry dim < Word.limit := by omega
    rw [if_neg hskip, if_neg hoffset]
    rfl

theorem exists_slice_iff : (∃ v, t.slice dim start stop = .ok v) ↔
    (dim < t.rank ∧ start ≤ stop ∧ stop ≤ t.shape.entry dim) ∧ t.offset + start * t.strides.entry dim < Word.limit := by
  simp [slice_eq_ok, canSlice_iff]

private theorem shift_bind_shift {m n : Nat} {l l' : Layout} {f : Tensor → Result Tensor}
    (h : ∀ o, f { t.withLayout l with offset := o } = ({ t.withLayout l with offset := o } : Tensor).shift n l') :
    (t.shift m l >>= f) = t.shift (m + n) l' := by
  unfold shift
  by_cases hm : t.offset + m < Word.limit
  · rw [if_pos hm, Result.ok_bind, h, shift, ← Nat.add_assoc]
    rfl
  · rw [if_neg hm, if_neg (by omega), Result.halt_bind]

private theorem shift_bind_ok {m : Nat} {l l' : Layout} {f : Tensor → Result Tensor}
    (h : ∀ o, f { t.withLayout l with offset := o } = .ok { t.withLayout l' with offset := o }) :
    (t.shift m l >>= f) = t.shift m l' := by
  unfold shift
  by_cases hm : t.offset + m < Word.limit
  · rw [if_pos hm, if_pos hm, Result.ok_bind, h]
  · rw [if_neg hm, if_neg hm, Result.halt_bind]

/-- Two slices add what they skip, and restrict the extents one after the other. -/
private theorem slice_bind_slice (h : t.canSlice dim start stop = true)
    (h' : (t.withLayout (t.layout.resize dim (stop - start))).canSlice dim' start' stop' = true) :
    (do (← t.slice dim start stop).slice dim' start' stop') =
      t.shift (start * t.strides.entry dim + start' * t.strides.entry dim')
        ((t.layout.resize dim (stop - start)).resize dim' (stop' - start')) := by
  rw [slice_eq_shift h]
  exact shift_bind_shift (f := fun u => u.slice dim' start' stop') fun _ => slice_eq_shift h'

theorem slice_slice (h : t.canSlice dim start stop = true) (hle : start' ≤ stop') (hstop : stop' ≤ stop - start) :
    (do (← t.slice dim start stop).slice dim start' stop') = t.slice dim (start + start') (start + stop') := by
  obtain ⟨hdim, hle', hstop'⟩ := canSlice_iff.1 h
  have hsecond : (t.withLayout (t.layout.resize dim (stop - start))).canSlice dim start' stop' = true := by
    refine canSlice_iff.2 ⟨hdim, hle, ?_⟩
    show stop' ≤ (t.layout.resize dim (stop - start)).shape.entry dim
    rwa [Layout.entry_resize _ hdim, if_pos rfl]
  have hboth : t.canSlice dim (start + start') (start + stop') = true :=
    canSlice_iff.2 ⟨hdim, by omega, by omega⟩
  rw [slice_bind_slice h hsecond, slice_eq_shift hboth, Layout.resize_resize, Nat.add_mul,
    show start + stop' - (start + start') = stop' - start' by omega]

private theorem canSlice_resize {extent : Nat} (hne : dim ≠ dim') (h : t.canSlice dim' start' stop' = true) :
    (t.withLayout (t.layout.resize dim extent)).canSlice dim' start' stop' = true := by
  obtain ⟨hdim, hle, hstop⟩ := canSlice_iff.1 h
  refine canSlice_iff.2 ⟨hdim, hle, ?_⟩
  show stop' ≤ (t.layout.resize dim extent).shape.entry dim'
  rwa [Layout.entry_resize _ hdim, if_neg hne.symm]

theorem slice_comm (hne : dim ≠ dim') (h : t.canSlice dim start stop = true)
    (h' : t.canSlice dim' start' stop' = true) :
    (do (← t.slice dim start stop).slice dim' start' stop') =
      (do (← t.slice dim' start' stop').slice dim start stop) := by
  rw [slice_bind_slice h (canSlice_resize hne h'), slice_bind_slice h' (canSlice_resize hne.symm h),
    Layout.resize_comm hne, Nat.add_comm]

theorem permute_slice (hp : p.Perm (List.range t.rank)) (hk : k < t.rank)
    (h : t.canSlice (p.getD k 0) start stop = true) :
    (do (← t.permute p).slice k start stop) = (do (← t.slice (p.getD k 0) start stop).permute p) := by
  obtain ⟨-, hle, hstop⟩ := canSlice_iff.1 h
  have haxis : (t.layout.reorder p).axis k = t.layout.axis (p.getD k 0) := Layout.axis_reorder t.layout p hk
  have hafter : (t.withLayout (t.layout.reorder p)).canSlice k start stop = true := by
    refine canSlice_iff.2 ⟨hk, hle, ?_⟩
    show stop ≤ ((t.layout.reorder p).axis k).1
    rwa [haxis]
  have hstride : (t.withLayout (t.layout.reorder p)).strides.entry k = t.strides.entry (p.getD k 0) :=
    congrArg Prod.snd haxis
  -- the offset of the slice does not matter to the permutation
  have hpermute : ∀ o, permute { t.withLayout (t.layout.resize (p.getD k 0) (stop - start)) with offset := o } p =
      .ok { t.withLayout ((t.layout.resize (p.getD k 0) (stop - start)).reorder p) with offset := o } :=
    fun o => permute_eq hp
  rw [permute_eq hp, Result.ok_bind, slice_eq_shift hafter, slice_eq_shift h,
    shift_bind_ok (f := fun u => u.permute p) hpermute, hstride, ← Layout.reorder_resize hp hk]
  rfl

/-! ### Dimensions that come and go -/

private theorem unsqueeze_eq_ok : t.unsqueeze dim = .ok u ↔ ∃ l,
    t.layout.insert dim 1 (if dim < t.rank then t.strides.entry dim else t.type.size) = .ok l ∧ u = t.withLayout l := by
  unfold unsqueeze
  by_cases hdim : t.rank < dim
  · rw [if_pos hdim]
    refine iff_of_false (by simp) ?_
    rintro ⟨l, h, -⟩
    have hle : dim ≤ t.rank := (Layout.exists_insert_iff.1 ⟨l, h⟩).1
    omega
  · rw [if_neg hdim, Result.bind_eq_ok]
    exact exists_congr fun l => and_congr_right fun _ => Result.pure_eq_ok.trans eq_comm

theorem exists_unsqueeze_iff : (∃ u, t.unsqueeze dim = .ok u) ↔ dim ≤ t.rank ∧ t.rank < maxRank := by
  constructor
  · rintro ⟨u, h⟩
    obtain ⟨l, hl, -⟩ := unsqueeze_eq_ok.1 h
    exact Layout.exists_insert_iff.1 ⟨l, hl⟩
  · intro h
    obtain ⟨l, hl⟩ := Layout.exists_insert_iff.2 h
    exact ⟨_, unsqueeze_eq_ok.2 ⟨l, hl, rfl⟩⟩

private theorem squeezeDim_eq_erase (hdim : dim < t.rank) (h : t.shape.entry dim = 1) :
    t.squeezeDim dim = .ok (t.withLayout (t.layout.erase dim)) := by
  unfold squeezeDim
  rw [if_neg (Nat.not_le.2 hdim), if_neg (by simpa using h)]

theorem squeezeDim_unsqueeze (h : t.unsqueeze dim = .ok u) : u.squeezeDim dim = .ok t.view := by
  obtain ⟨hdim, -⟩ := exists_unsqueeze_iff.1 ⟨u, h⟩
  obtain ⟨l, hl, rfl⟩ := unsqueeze_eq_ok.1 h
  have hrank : (t.withLayout l).rank = t.rank + 1 := Layout.rank_of_insert hl
  have hentry : (t.withLayout l).shape.entry dim = 1 := congrArg Prod.fst (Layout.axis_of_insert hl)
  have herase : (t.withLayout l).layout.erase dim = t.layout := Layout.erase_of_insert hl
  rw [squeezeDim_eq_erase (by omega) hentry, herase]
  rfl

theorem squeeze_squeeze (t : Tensor) : t.squeeze.squeeze = t.squeeze := congrArg t.withLayout t.layout.squeeze_squeeze

/-- Drops the listed dimensions of a tensor one after the other. `place` is where each of them stands by now. -/
def squeezeEach (place : Nat → Nat) : (order : List Nat) → Tensor → Result Tensor
  | [], t => .ok t.view
  | dim :: order, t => do
    squeezeEach (fun other => Layout.moveDown (place dim) (place other)) order (← t.squeezeDim (place dim))

/-- What matters for the steps to come is where the dimensions of extent one that are left stand. -/
theorem squeezeEach_eq {place : Nat → Nat} {order : List Nat} (h : (order.map place).Perm t.layout.unitDims) :
    squeezeEach place order t = .ok t.squeeze := by
  induction order generalizing place t with
  | nil =>
    have hnone : t.layout.squeeze = t.layout := Layout.squeeze_of_unitDims (List.nil_perm.1 h)
    unfold squeezeEach squeeze
    rw [hnone]
    rfl
  | cons dim order ih =>
    obtain ⟨hdim, h1⟩ := Layout.mem_unitDims.1 (h.mem_iff.1 List.mem_cons_self)
    have hrest : (order.map fun other => Layout.moveDown (place dim) (place other)).Perm
        (t.withLayout (t.layout.erase (place dim))).layout.unitDims := by
      have herase := Layout.perm_unitDims_erase h
      rwa [List.map_map] at herase
    unfold squeezeEach
    rw [squeezeDim_eq_erase hdim h1, Result.ok_bind, ih hrest]
    exact congrArg (fun l => Except.ok (t.withLayout l)) (Layout.squeeze_erase hdim h1)

/-! ### Expansions -/

theorem expand_eq_ok {extents : List Nat} : t.expand extents = .ok v ↔
    ∃ target l, Dims.ofList extents = .ok target ∧ t.layout.expand target = .ok l ∧ v = t.withLayout l := by
  unfold expand
  simp only [Result.bind_eq_ok, Result.pure_eq_ok]
  constructor
  · rintro ⟨target, htarget, l, hl, rfl⟩
    exact ⟨target, l, htarget, hl, rfl⟩
  · rintro ⟨target, l, htarget, hl, rfl⟩
    exact ⟨target, htarget, l, hl, rfl⟩

theorem expand_expand {extents extents' : List Nat} (h : t.expand extents = .ok u) (h' : u.expand extents' = .ok w) :
    t.expand extents' = .ok w := by
  obtain ⟨target, l, -, hl, rfl⟩ := expand_eq_ok.1 h
  obtain ⟨target', l', htarget', hl', rfl⟩ := expand_eq_ok.1 h'
  exact expand_eq_ok.2 ⟨target', l', htarget', Layout.expand_expand hl hl', rfl⟩

/-! ### The laws -/

/-- Equations between views of `t`. Where slices occur in them, the two sides also leave 64 bits together. -/
structure ViewLaws (t : Tensor) : Prop where
  transpose_transpose : t.transpose.transpose = t.view
  /-- The arguments that `permute` accepts are the permutations of the dimensions. -/
  permute_isOk : ∀ p, (∃ v, t.permute p = .ok v) ↔ p.Perm (List.range t.rank)
  permute_permute : ∀ p q, p.Perm (List.range t.rank) → q.Perm (List.range t.rank) →
    ∃ v, (do (← t.permute p).permute q) = .ok v ∧ t.permute (q.map fun i => p.getD i 0) = .ok v
  permute_inverse : ∀ p, p.Perm (List.range t.rank) →
    (do (← t.permute p).permute (Layout.inverse p)) = .ok t.view ∧
      (do (← t.permute (Layout.inverse p)).permute p) = .ok t.view
  slice_isOk : ∀ dim start stop, (∃ v, t.slice dim start stop = .ok v) ↔
    (dim < t.rank ∧ start ≤ stop ∧ stop ≤ t.shape.entry dim) ∧ t.offset + start * t.strides.entry dim < Word.limit
  slice_slice : ∀ dim start stop start' stop', t.canSlice dim start stop = true → start' ≤ stop' →
    stop' ≤ stop - start →
      (do (← t.slice dim start stop).slice dim start' stop') = t.slice dim (start + start') (start + stop')
  slice_comm : ∀ dim start stop dim' start' stop', dim ≠ dim' → t.canSlice dim start stop = true →
    t.canSlice dim' start' stop' = true →
      (do (← t.slice dim start stop).slice dim' start' stop') = (do (← t.slice dim' start' stop').slice dim start stop)
  permute_slice : ∀ p k start stop, p.Perm (List.range t.rank) → k < t.rank →
    t.canSlice (p.getD k 0) start stop = true →
      (do (← t.permute p).slice k start stop) = (do (← t.slice (p.getD k 0) start stop).permute p)
  unsqueeze_isOk : ∀ dim, (∃ u, t.unsqueeze dim = .ok u) ↔ dim ≤ t.rank ∧ t.rank < maxRank
  squeezeDim_unsqueeze : ∀ dim u, t.unsqueeze dim = .ok u → u.squeezeDim dim = .ok t.view
  squeeze_squeeze : t.squeeze.squeeze = t.squeeze
  /-- The dimensions of extent one, listed by where they stand in `t`, can be dropped one by one in any order. -/
  squeeze_eq_squeezeEach : ∀ order, order.Perm ((List.range t.rank).filter fun dim => t.shape.entry dim = 1) →
    squeezeEach id order t = .ok t.squeeze
  expand_expand : ∀ extents extents' u w, t.expand extents = .ok u → u.expand extents' = .ok w →
    t.expand extents' = .ok w

theorem viewLaws (t : Tensor) : t.ViewLaws where
  transpose_transpose := t.transpose_transpose
  permute_isOk _ := exists_permute_iff
  permute_permute p q hp hq := by
    rw [Tensor.permute_permute hp hq]
    obtain ⟨v, hv⟩ := exists_permute_iff.2 (Layout.perm_comp hp hq)
    exact ⟨v, hv, hv⟩
  permute_inverse _ hp := Tensor.permute_inverse hp
  slice_isOk _ _ _ := exists_slice_iff
  slice_slice _ _ _ _ _ h hle hstop := Tensor.slice_slice h hle hstop
  slice_comm _ _ _ _ _ _ hne h h' := Tensor.slice_comm hne h h'
  permute_slice _ _ _ _ hp hk h := Tensor.permute_slice hp hk h
  unsqueeze_isOk _ := exists_unsqueeze_iff
  squeezeDim_unsqueeze _ _ h := Tensor.squeezeDim_unsqueeze h
  squeeze_squeeze := t.squeeze_squeeze
  squeeze_eq_squeezeEach order h := squeezeEach_eq (by rwa [List.map_id])
  expand_expand _ _ _ _ h h' := Tensor.expand_expand h h'

/-- Two rows of three floats, each dimension after one of extent one whose stride is of no use. -/
def spaced : Tensor where
  buffer := some 7
  offset := 4
  type := .f32
  device := .cpu
  layout := Layout.ofEntries (Dims.build 4 (by decide) fun i => [1, 2, 1, 3].getD i 0) [0, 12, 100, 4]
  ownership := true

theorem spaced_viewLaws :
    (do (← spaced.permute [3, 0, 1, 2]).slice 0 1 3) = (do (← spaced.slice 3 1 3).permute [3, 0, 1, 2]) ∧
      (do (← spaced.slice 3 1 3).slice 1 0 1) = (do (← spaced.slice 1 0 1).slice 3 1 3) ∧
      (do (← spaced.permute [3, 0, 1, 2]).permute [1, 2, 3, 0]) = .ok spaced.view ∧
      squeezeEach id [2, 0] spaced = .ok spaced.squeeze ∧
      ∃ u w, spaced.expand [4, 2, 1, 3] = .ok u ∧ u.expand [6, 4, 2, 5, 3] = .ok w ∧
        spaced.expand [6, 4, 2, 5, 3] = .ok w := by
  have laws := viewLaws spaced
  have hexpand : spaced.expand [4, 2, 1, 3] = .ok _ := rfl
  exact ⟨laws.permute_slice [3, 0, 1, 2] 0 1 3 (by decide) (by decide) rfl,
    laws.slice_comm 3 1 3 1 0 1 (by decide) rfl rfl, (laws.permute_inverse [3, 0, 1, 2] (by decide)).1,
    laws.squeeze_eq_squeezeEach [2, 0] (by decide), _, _, hexpand, rfl, laws.expand_expand _ _ _ _ hexpand rfl⟩

end Tensor

end StridedTensor
