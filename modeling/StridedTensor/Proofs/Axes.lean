import Mathlib.Data.List.Perm.Subperm
import StridedTensor.Proofs.Density
import StridedTensor.Tensor.View

/-!
# Axes of views

What each view operation does to the axes of a layout, and the map that takes an index of the view to the index of
the same element (`Maps`). The operations insert, erase, move, restrict and stretch axes, and their maps act on the
entries of an index in the opposite direction.
-/

namespace StridedTensor.Layout

variable {axes axes' : List Axis} {index : List Nat}

/-- An index has an entry below each extent and no others. -/
def Below (axes : List Axis) (index : List Nat) : Prop := List.Forall₂ (· < ·) index (axes.map Prod.fst)

/-- `f` maps the indices along `axes'` to indices along `axes`, and the element at `f index` is `skip` bytes
farther from the first one of `axes` than the one at `index` from the first one of `axes'`. -/
def Maps (axes' axes : List Axis) (f : List Nat → List Nat) (skip : Nat) : Prop :=
  ∀ index, Below axes' index → Below axes (f index) ∧ skip + distance axes' index = distance axes (f index)

@[simp] theorem below_nil : Below [] index ↔ index = [] := by simp [Below]

@[simp] theorem below_cons {a : Axis} {i : Nat} : Below (a :: axes) (i :: index) ↔ i < a.1 ∧ Below axes index := by
  simp [Below]

theorem Maps.trans {axes'' : List Axis} {f g : List Nat → List Nat} (h : Maps axes'' axes' f 0)
    (h' : Maps axes' axes g 0) : Maps axes'' axes (fun index => g (f index)) 0 := by
  intro index hi
  obtain ⟨hb, hd⟩ := h index hi
  obtain ⟨hb', hd'⟩ := h' _ hb
  refine ⟨hb', ?_⟩
  show 0 + distance axes'' index = distance axes (g (f index))
  omega

private theorem Below.length_eq (h : Below axes index) : index.length = axes.length := by
  simpa using List.Forall₂.length_eq h

private theorem Below.exists_cons {a : Axis} (h : Below (a :: axes) index) :
    ∃ i rest, index = i :: rest ∧ i < a.1 ∧ Below axes rest := by
  cases h with
  | @cons i _ rest _ hi ht => exact ⟨i, rest, rfl, hi, ht⟩

/-! ### Adding and dropping an axis of extent one -/

theorem maps_eraseIdx {dim stride : Nat} (h : axes[dim]? = some (1, stride)) :
    Maps (axes.eraseIdx dim) axes (fun index => index.insertIdx dim 0) 0 := by
  induction axes generalizing dim with
  | nil => simp at h
  | cons a axes ih =>
    intro index hi
    cases dim with
    | zero =>
      obtain rfl : a = (1, stride) := by simpa using h
      exact ⟨below_cons.2 ⟨Nat.one_pos, hi⟩, by simp⟩
    | succ dim =>
      obtain ⟨i, rest, rfl, hlt, hrest⟩ := Below.exists_cons hi
      obtain ⟨hbelow, hdist⟩ := ih (by simpa using h) rest hrest
      refine ⟨below_cons.2 ⟨hlt, hbelow⟩, ?_⟩
      simp only [List.eraseIdx_cons_succ, List.insertIdx_succ_cons, distance_cons, ← hdist]
      omega

theorem maps_insertIdx {dim stride : Nat} (h : dim ≤ axes.length) :
    Maps (axes.insertIdx dim (1, stride)) axes (fun index => index.eraseIdx dim) 0 := by
  induction axes generalizing dim with
  | nil =>
    obtain rfl : dim = 0 := by simpa using h
    intro index hi
    obtain ⟨i, rest, rfl, hlt, hrest⟩ := Below.exists_cons hi
    obtain rfl : rest = [] := by simpa using hrest
    exact ⟨below_nil.2 rfl, by simp [show i = 0 by simpa using hlt]⟩
  | cons a axes ih =>
    intro index hi
    cases dim with
    | zero =>
      obtain ⟨i, rest, rfl, hlt, hrest⟩ := Below.exists_cons hi
      exact ⟨hrest, by simp [show i = 0 by simpa using hlt]⟩
    | succ dim =>
      obtain ⟨i, rest, rfl, hlt, hrest⟩ := Below.exists_cons hi
      obtain ⟨hbelow, hdist⟩ := ih (by simpa using h) rest hrest
      refine ⟨below_cons.2 ⟨hlt, hbelow⟩, ?_⟩
      simp only [List.insertIdx_succ_cons, List.eraseIdx_cons_succ, distance_cons, ← hdist]
      omega

/-- The index along all axes of an index along those whose extent is not one. -/
def restore : List Nat → List Nat → List Nat
  | [], _ => []
  | n :: ns, index => if n = 1 then 0 :: restore ns index else index.headD 0 :: restore ns index.tail

theorem maps_filter (axes : List Axis) :
    Maps (axes.filter fun a => a.1 ≠ 1) axes (restore (axes.map Prod.fst)) 0 := by
  induction axes with
  | nil =>
    intro index hi
    exact ⟨below_nil.2 rfl, by simp⟩
  | cons a axes ih =>
    intro index hi
    rw [List.map_cons, restore]
    by_cases h1 : a.1 = 1
    · rw [List.filter_cons_of_neg (by simpa using h1)] at hi ⊢
      obtain ⟨hbelow, hdist⟩ := ih index hi
      rw [if_pos h1]
      exact ⟨below_cons.2 ⟨by omega, hbelow⟩, by rw [distance_cons]; omega⟩
    · rw [List.filter_cons_of_pos (by simpa using h1)] at hi ⊢
      obtain ⟨i, rest, rfl, hlt, hrest⟩ := Below.exists_cons hi
      obtain ⟨hbelow, hdist⟩ := ih rest hrest
      rw [if_neg h1]
      refine ⟨below_cons.2 ⟨hlt, hbelow⟩, ?_⟩
      simp only [distance_cons, List.headD_cons, List.tail_cons, ← hdist]
      omega

/-! ### Restricting an axis -/

theorem maps_set {dim n stride start stop : Nat} (h : axes[dim]? = some (n, stride)) (hle : start ≤ stop)
    (hstop : stop ≤ n) :
    Maps (axes.set dim (stop - start, stride)) axes (fun index => index.modify dim (· + start)) (start * stride) := by
  induction axes generalizing dim with
  | nil => simp at h
  | cons a axes ih =>
    intro index hi
    cases dim with
    | zero =>
      obtain rfl : a = (n, stride) := by simpa using h
      obtain ⟨i, rest, rfl, hlt, hrest⟩ := Below.exists_cons hi
      refine ⟨below_cons.2 ⟨by simp only at hlt ⊢; omega, hrest⟩, ?_⟩
      simp only [List.set_cons_zero, List.modify_zero_cons, distance_cons, Nat.add_mul]
      omega
    | succ dim =>
      obtain ⟨i, rest, rfl, hlt, hrest⟩ := Below.exists_cons hi
      obtain ⟨hbelow, hdist⟩ := ih (by simpa using h) rest hrest
      refine ⟨below_cons.2 ⟨hlt, hbelow⟩, ?_⟩
      simp only [List.set_cons_succ, List.modify_succ_cons, distance_cons, ← hdist]
      omega

/-! ### Moving axes -/

/-- The index with its last two entries exchanged, if there are two. -/
def swapLast (index : List Nat) : List Nat :=
  index.take (index.length - 2) ++ (index.drop (index.length - 2)).reverse

private theorem maps_swapLast (lead : List Axis) (a b : Axis) : Maps (lead ++ [b, a]) (lead ++ [a, b]) swapLast 0 := by
  induction lead with
  | nil =>
    intro index hi
    obtain ⟨i, rest, rfl, hlt, hrest⟩ := Below.exists_cons hi
    obtain ⟨j, rest, rfl, hlt', hrest⟩ := Below.exists_cons hrest
    obtain rfl : rest = [] := by simpa using hrest
    refine ⟨?_, ?_⟩
    · show Below [a, b] [j, i]
      simp [hlt, hlt']
    · show 0 + distance [b, a] [i, j] = distance [a, b] [j, i]
      simp [Nat.add_comm]
  | cons c lead ih =>
    intro index hi
    obtain ⟨i, rest, rfl, hlt, hrest⟩ := Below.exists_cons hi
    obtain ⟨hbelow, hdist⟩ := ih rest hrest
    have hlen : 2 ≤ rest.length := by
      rw [hrest.length_eq]
      simp
    have hswap : swapLast (i :: rest) = i :: swapLast rest := by
      unfold swapLast
      rw [List.length_cons, show rest.length + 1 - 2 = rest.length - 2 + 1 by omega, List.take_succ_cons,
        List.drop_succ_cons, List.cons_append]
    rw [hswap]
    refine ⟨below_cons.2 ⟨hlt, hbelow⟩, ?_⟩
    simp only [List.cons_append, distance_cons, ← hdist]
    omega

private theorem below_iff :
    Below axes index ↔
      index.length = axes.length ∧ ∀ k < axes.length, index.getD k 0 < (axes.getD k (0, 0)).1 := by
  unfold Below
  rw [List.forall₂_iff_get]
  constructor
  · rintro ⟨hlen, h⟩
    rw [List.length_map] at hlen
    refine ⟨hlen, fun k hk => ?_⟩
    have hk' := h k (by omega) (by simpa using hk)
    simpa [hlen, hk] using hk'
  · rintro ⟨hlen, h⟩
    refine ⟨by simpa using hlen, fun k hk hk' => ?_⟩
    have hlt := h k (by omega)
    rw [hlen] at hk
    simpa [hlen, hk] using hlt

private theorem distance_eq_sum (h : index.length = axes.length) :
    distance axes index = ((List.range axes.length).map fun k => index.getD k 0 * (axes.getD k (0, 0)).2).sum := by
  induction axes generalizing index with
  | nil => simp
  | cons a axes ih =>
    cases index with
    | nil => simp at h
    | cons i index =>
      rw [distance_cons, ih (by simpa using h), List.length_cons, List.range_succ_eq_map]
      simp [Function.comp_def]

/-- From the given flags on, a list is gone through to its end if it names dimensions whose flags are down, and none of
them twice. -/
private theorem isSome_foldlM_flag? {rank : Nat} (p : List Nat) (seen : Vector Bool maxRank) :
    (p.foldlM (Dims.flag? rank) seen).isSome = true ↔ (∀ dim ∈ p, dim < rank ∧ seen[dim]? = some false) ∧ p.Nodup := by
  induction p generalizing seen with
  | nil => simp
  | cons dim p ih =>
    rw [List.foldlM_cons, Dims.flag?]
    by_cases hdim : dim < rank ∧ seen[dim]? = some false
    · -- one more flag is up, so what follows must not name `dim` again
      have hflag : ∀ j, (seen.setIfInBounds dim true)[j]? = some false ↔ j ≠ dim ∧ seen[j]? = some false := by
        intro j
        rw [Vector.getElem?_setIfInBounds]
        by_cases hj : dim = j
        · simp [hj]
        · simp [hj, Ne.symm hj]
      rw [if_pos hdim]
      simp only [Option.bind_eq_bind, Option.bind_some, ih, hflag, List.forall_mem_cons, List.nodup_cons]
      constructor
      · rintro ⟨hall, hnodup⟩
        exact ⟨⟨hdim, fun j hj => ⟨(hall j hj).1, (hall j hj).2.2⟩⟩, fun hmem => (hall dim hmem).2.1 rfl, hnodup⟩
      · rintro ⟨⟨-, hall⟩, hnew, hnodup⟩
        exact ⟨fun j hj => ⟨(hall j hj).1, fun heq => hnew (heq ▸ hj), (hall j hj).2⟩, hnodup⟩
    · rw [if_neg hdim]
      refine iff_of_false (by simp) fun h => hdim (h.1 dim List.mem_cons_self)

/-- What the flags let through are the lists of different dimensions, as many as there are. -/
theorem isPermutation_iff {rank : Nat} (hrank : rank ≤ maxRank) {p : List Nat} :
    Dims.isPermutation rank p = true ↔ p.length = rank ∧ (∀ dim ∈ p, dim < rank) ∧ p.Nodup := by
  have hdown : ∀ dim < rank, (Vector.replicate maxRank false)[dim]? = some false := fun dim hdim => by
    simp [Nat.lt_of_lt_of_le hdim hrank]
  rw [Dims.isPermutation, Bool.and_eq_true, beq_iff_eq, isSome_foldlM_flag?]
  refine and_congr_right fun _ => and_congr_left fun _ => ?_
  exact forall₂_congr fun dim _ => ⟨And.left, fun hdim => ⟨hdim, hdown dim hdim⟩⟩

/-- Different numbers below `n`, as many as there are, are all of them. -/
theorem perm_range {p : List Nat} {n : Nat} (hlen : p.length = n) (hlt : ∀ j ∈ p, j < n) (hnodup : p.Nodup) :
    p.Perm (List.range n) := by
  refine (List.subperm_of_subset hnodup fun j hj => List.mem_range.2 (hlt j hj)).perm_of_length_le ?_
  rw [List.length_range, hlen]

/-- The index whose entry `p[k]` is entry `k` of the given one. -/
def scatter (p : List Nat) (index : List Nat) : List Nat :=
  (List.range p.length).map fun j => index.getD (p.idxOf j) 0

private theorem getD_scatter {p : List Nat} (hlt : ∀ j ∈ p, j < p.length) (hnodup : p.Nodup) {k : Nat}
    (hk : k < p.length) :
    (scatter p index).getD p[k] 0 = index.getD k 0 := by
  have hj := hlt _ (List.getElem_mem hk)
  unfold scatter
  rw [List.getD_eq_getElem?_getD, List.getElem?_map, List.getElem?_range hj, Option.map_some, Option.getD_some,
    hnodup.idxOf_getElem]

theorem maps_permute {p : List Nat} (hlen : p.length = axes.length) (hlt : ∀ j ∈ p, j < axes.length)
    (hnodup : p.Nodup) : Maps (p.map fun j => axes.getD j (0, 0)) axes (scatter p) 0 := by
  have hperm := perm_range hlen hlt hnodup
  rw [← hlen] at hlt
  intro index hi
  obtain ⟨hilen, hilt⟩ := below_iff.1 hi
  rw [List.length_map] at hilen hilt
  have haxis : ∀ k, (h : k < p.length) →
      (p.map fun j => axes.getD j (0, 0)).getD k (0, 0) = axes.getD p[k] (0, 0) := by
    intro k h
    simp [h]
  have hslen : (scatter p index).length = axes.length := by simp [scatter, hlen]
  refine ⟨below_iff.2 ⟨hslen, fun j hj => ?_⟩, ?_⟩
  · have hmem : j ∈ p := hperm.mem_iff.2 (List.mem_range.2 hj)
    obtain ⟨k, hk, rfl⟩ := List.getElem_of_mem hmem
    have hbelow := hilt k hk
    rw [haxis k hk] at hbelow
    rw [getD_scatter hlt hnodup hk]
    exact hbelow
  · -- both sums have the same terms, in the order of `p` and in the order of the axes
    have hterms : (List.range p.length).map (fun k => index.getD k 0 *
        ((p.map fun j => axes.getD j (0, 0)).getD k (0, 0)).2) =
          p.map fun j => (scatter p index).getD j 0 * (axes.getD j (0, 0)).2 := by
      apply List.ext_getElem
      · simp
      · intro k hk hk'
        rw [List.length_map] at hk'
        rw [List.getElem_map, List.getElem_range, List.getElem_map, haxis k hk', getD_scatter hlt hnodup hk']
    calc 0 + distance (p.map fun j => axes.getD j (0, 0)) index
        = (p.map fun j => (scatter p index).getD j 0 * (axes.getD j (0, 0)).2).sum := by
          rw [distance_eq_sum (by simp [hilen]), List.length_map, hterms, Nat.zero_add]
      _ = ((List.range axes.length).map fun j => (scatter p index).getD j 0 * (axes.getD j (0, 0)).2).sum :=
          (hperm.map _).sum_nat
      _ = distance axes (scatter p index) := (distance_eq_sum hslen).symm

/-! ### Stretching -/

private theorem maps_append (lead axes : List Axis) (h : ∀ a ∈ lead, a.2 = 0) :
    Maps (lead ++ axes) axes (fun index => index.drop lead.length) 0 := by
  induction lead with
  | nil => exact fun index hi => ⟨hi, Nat.zero_add _⟩
  | cons a lead ih =>
    intro index hi
    obtain ⟨i, rest, rfl, -, hrest⟩ := Below.exists_cons hi
    obtain ⟨hbelow, hdist⟩ := ih (fun b hb => h b (by simp [hb])) rest hrest
    refine ⟨hbelow, ?_⟩
    simp only [List.cons_append, distance_cons, h a (by simp), List.length_cons, List.drop_succ_cons, ← hdist]
    omega

/-- The index along axes that have been stretched: zero where the extent was one. -/
def collapse (extents index : List Nat) : List Nat := List.zipWith (fun n i => if n = 1 then 0 else i) extents index

theorem stretch?_cons_eq_some {a : Axis} {target : Nat} {targets entries : List Nat} :
    stretch? (a :: axes) (target :: targets) = some entries ↔
      ∃ s rest, stretch? axes targets = some rest ∧ entries = s :: rest ∧
        (a.1 = target ∧ s = a.2 ∨ a.1 ≠ target ∧ a.1 = 1 ∧ s = 0) := by
  rw [stretch?]
  by_cases ht : a.1 = target
  · rw [if_pos ht]
    cases stretch? axes targets <;> simp [ht, eq_comm]
  · rw [if_neg ht]
    by_cases h1 : a.1 = 1
    · have hne : target ≠ 1 := fun h => ht (h1.trans h.symm)
      rw [if_pos h1]
      cases stretch? axes targets <;> simp [hne, h1, eq_comm]
    · rw [if_neg h1]
      simp [ht, h1]

private theorem maps_stretch {targets entries : List Nat} (h : stretch? axes targets = some entries)
    (hlen : targets.length = axes.length) : Maps (targets.zip entries) axes (collapse (axes.map Prod.fst)) 0 := by
  induction axes generalizing targets entries with
  | nil =>
    obtain rfl : targets = [] := by simpa using hlen
    intro index hi
    exact ⟨below_nil.2 rfl, by simp⟩
  | cons a axes ih =>
    cases targets with
    | nil => simp at hlen
    | cons target targets =>
      obtain ⟨s, rest, hrest, rfl, hs⟩ := stretch?_cons_eq_some.1 h
      intro index hi
      obtain ⟨i, index, rfl, hlt, hi⟩ := Below.exists_cons hi
      obtain ⟨hbelow, hdist⟩ := ih hrest (by simpa using hlen) index hi
      have hcons : collapse ((a :: axes).map Prod.fst) (i :: index) =
          (if a.1 = 1 then 0 else i) :: collapse (axes.map Prod.fst) index := rfl
      rw [hcons, List.zip_cons_cons, distance_cons, below_cons, distance_cons, ← hdist]
      simp only at hlt ⊢
      -- the extent and the stride stay, or the extent was one and the stride is now zero
      rcases hs with ⟨ht, rfl⟩ | ⟨-, h1, rfl⟩
      · by_cases h1 : a.1 = 1
        · rw [if_pos h1, show i = 0 by omega]
          exact ⟨⟨by omega, hbelow⟩, by omega⟩
        · rw [if_neg h1]
          exact ⟨⟨by omega, hbelow⟩, by omega⟩
      · rw [if_pos h1]
        exact ⟨⟨by omega, hbelow⟩, by omega⟩

/-! ### The axes of an edited layout -/

private theorem zip_eraseIdx (xs ys : List Nat) (i : Nat) :
    (xs.eraseIdx i).zip (ys.eraseIdx i) = (xs.zip ys).eraseIdx i := by
  induction xs generalizing ys i with
  | nil => simp
  | cons x xs ih => cases ys <;> cases i <;> simp [ih]

private theorem zip_insertIdx {xs ys : List Nat} (h : xs.length = ys.length) (i x y : Nat) :
    (xs.insertIdx i x).zip (ys.insertIdx i y) = (xs.zip ys).insertIdx i (x, y) := by
  induction xs generalizing ys i with
  | nil =>
    obtain rfl : ys = [] := by simpa using h.symm
    cases i <;> simp
  | cons a xs ih =>
    cases ys with
    | nil => simp at h
    | cons b ys => cases i <;> simp [ih (by simpa using h)]

private theorem zip_set {xs ys : List Nat} {i n s : Nat} (h : (xs.zip ys)[i]? = some (n, s)) (x : Nat) :
    (xs.set i x).zip ys = (xs.zip ys).set i (x, s) := by
  induction xs generalizing ys i with
  | nil => simp at h
  | cons a xs ih =>
    cases ys with
    | nil => simp at h
    | cons b ys =>
      cases i with
      | zero =>
        simp only [List.zip_cons_cons, List.getElem?_cons_zero, Option.some.injEq, Prod.mk.injEq] at h
        simp [h.2]
      | succ i => simp [ih (by simpa using h)]

variable {l l' : Layout}

def axis (l : Layout) (i : Nat) : Axis := (l.shape.entry i, l.strides.entry i)

theorem axes_eq_map (l : Layout) : l.axes = (List.range l.rank).map l.axis := by
  unfold axes Dims.toList
  rw [l.same_rank]
  exact List.zip_map'

theorem getElem?_axes {i : Nat} (h : i < l.rank) : l.axes[i]? = some (l.axis i) := by
  rw [axes_eq_map]
  simp [h]

/-- Layouts with the same axes are the same. -/
theorem ext_axes (h : l.axes = l'.axes) : l = l' := by
  have hshape : l.shape = l'.shape := by
    apply Dims.toList_inj.1
    rw [← map_fst_axes, ← map_fst_axes, h]
  have hstrides : l.strides = l'.strides := by
    apply Dims.toList_inj.1
    rw [← map_snd_axes, ← map_snd_axes, h]
  cases l
  cases l'
  simp only at hshape hstrides
  subst hshape hstrides
  rfl

theorem ext_axis {n : Nat} (hrank : l.rank = n) (hrank' : l'.rank = n) (h : ∀ i < n, l.axis i = l'.axis i) :
    l = l' := by
  apply ext_axes
  rw [axes_eq_map, axes_eq_map, hrank, hrank']
  exact List.map_congr_left fun i hi => h i (List.mem_range.1 hi)

theorem axes_erase {dim : Nat} (h : dim < l.rank) : (l.erase dim).axes = l.axes.eraseIdx dim := by
  unfold axes erase
  rw [Dims.toList_erase h, Dims.toList_erase (by rw [l.same_rank]; exact h), zip_eraseIdx]

theorem axes_insert {dim extent stride : Nat} (h : l.insert dim extent stride = .ok l') :
    l'.axes = l.axes.insertIdx dim (extent, stride) := by
  unfold insert at h
  split at h
  · rename_i shape strides hs ht
    cases h
    unfold axes
    rw [Dims.toList_insert hs, Dims.toList_insert ht, zip_insertIdx (by simp [l.same_rank])]
  · simp at h
  · simp at h

theorem axes_resize {dim : Nat} (h : dim < l.rank) (extent : Nat) :
    (l.resize dim extent).axes = l.axes.set dim (extent, l.strides.entry dim) := by
  unfold axes resize
  rw [Dims.toList_set]
  exact zip_set (getElem?_axes h) extent

private theorem axes_gather (l : Layout) (p : Nat → Nat) :
    (l.gather p).axes = (List.range l.rank).map fun i => l.axis (p i) := by
  unfold axes gather Dims.gather
  rw [Dims.toList_build, Dims.toList_build, l.same_rank]
  exact List.zip_map'

theorem axes_permute {p : List Nat} (hlen : p.length = l.rank) (hlt : ∀ j ∈ p, j < l.rank) :
    (l.gather fun i => p.getD i 0).axes = p.map fun j => l.axes.getD j (0, 0) := by
  rw [axes_gather]
  apply List.ext_getElem
  · simp [hlen]
  · intro k hk hk'
    rw [List.length_map] at hk'
    have hpk : p.getD k 0 = p[k] := by simp [hk']
    have hj : p[k] < l.rank := hlt _ (List.getElem_mem hk')
    rw [List.getElem_map, List.getElem_map, List.getElem_range, hpk, List.getD_eq_getElem?_getD,
      getElem?_axes hj, Option.getD_some]

private theorem axis_swap {i j k : Nat} (h : k < l.rank) :
    (l.swap i j).axis k = if k = j then l.axis i else if k = i then l.axis j else l.axis k := by
  have hs : k < l.shape.rank := h
  have ht : k < l.strides.rank := by rwa [l.same_rank]
  simp only [axis, swap, Dims.swap, Dims.set, Dims.entry_build, Dims.rank_build, if_pos hs, if_pos ht]
  split
  · rfl
  · split <;> rfl

/-- A layout of rank two or more has a last and a second to last axis, and the transposed one has them the other way
round. -/
theorem axes_transpose (l : Layout) :
    (l.rank < 2 ∧ l.transpose.axes = l.axes) ∨
      ∃ lead a b, l.axes = lead ++ [a, b] ∧ l.transpose.axes = lead ++ [b, a] := by
  unfold transpose
  by_cases hrank : l.rank < 2
  · rw [if_pos hrank]
    exact .inl ⟨hrank, rfl⟩
  · rw [if_neg hrank]
    obtain ⟨r, hr⟩ : ∃ r, l.rank = r + 2 := ⟨l.rank - 2, by omega⟩
    have hlead : (List.range r).map (l.swap r (r + 1)).axis = (List.range r).map l.axis := by
      apply List.map_congr_left
      intro i hi
      have hlt := List.mem_range.1 hi
      rw [axis_swap (by omega), if_neg (by omega), if_neg (by omega)]
    right
    refine ⟨(List.range r).map l.axis, l.axis r, l.axis (r + 1), ?_, ?_⟩
    · rw [axes_eq_map, hr]
      simp [List.range_succ]
    · have hrank' : (l.swap r (r + 1)).rank = r + 2 := hr
      rw [hr, Nat.add_sub_cancel, show r + 2 - 1 = r + 1 by omega, axes_eq_map, hrank', List.range_succ,
        List.range_succ, List.map_append, List.map_append, hlead]
      simp [axis_swap, hr]

theorem maps_transpose (l : Layout) : Maps l.transpose.axes l.axes swapLast 0 := by
  rcases l.axes_transpose with ⟨hrank, h⟩ | ⟨lead, a, b, h, h'⟩
  · -- an index with fewer than two entries is its own image
    rw [h]
    intro index hi
    have hlen := hi.length_eq
    rw [length_axes] at hlen
    have hswap : swapLast index = index := by
      match index, hlen with
      | [], _ => rfl
      | [i], _ => rfl
      | i :: j :: rest, hlen =>
        simp only [List.length_cons] at hlen
        omega
    rw [hswap]
    exact ⟨hi, Nat.zero_add _⟩
  · rw [h, h']
    exact maps_swapLast lead a b

/-! ### Dropping all axes of extent one -/

theorem rank_erase (l : Layout) (dim : Nat) : (l.erase dim).rank = l.rank - 1 := rfl

private theorem axes_foldl_erase {k : Nat} (h : k ≤ l.rank) :
    ((List.range k).reverse.foldl (fun l dim => if l.shape.entry dim = 1 then l.erase dim else l) l).axes =
      ((l.axes.take k).filter fun a => a.1 ≠ 1) ++ l.axes.drop k := by
  -- the last dimension comes first, so that dropping an axis moves those axes only that are done already
  induction k generalizing l with
  | zero => simp
  | succ k ih =>
    have hk : l.axes[k]? = some (l.axis k) := getElem?_axes (by omega)
    obtain ⟨hlt, hget⟩ := List.getElem?_eq_some_iff.1 hk
    rw [List.range_succ, List.reverse_append, List.reverse_singleton, List.singleton_append, List.foldl_cons,
      List.take_succ_eq_append_getElem hlt, List.filter_append, hget]
    by_cases h1 : l.shape.entry k = 1
    · rw [if_pos h1, ih (by rw [rank_erase]; omega), axes_erase (by omega)]
      have hnot : ([l.axis k].filter fun a => a.1 ≠ 1) = [] := by simp [axis, h1]
      have hlen : (l.axes.take k).length = k := by
        rw [List.length_take]
        omega
      rw [hnot, List.append_nil, List.eraseIdx_eq_take_drop_succ, List.take_left' hlen, List.drop_left' hlen]
    · rw [if_neg h1, ih (by omega)]
      have hkeep : ([l.axis k].filter fun a => a.1 ≠ 1) = [l.axis k] := by simp [axis, h1]
      rw [hkeep, List.append_assoc, List.singleton_append, ← hget, ← List.drop_eq_getElem_cons hlt]

theorem axes_squeeze (l : Layout) : l.squeeze.axes = l.axes.filter fun a => a.1 ≠ 1 := by
  have h := axes_foldl_erase (Nat.le_refl l.rank)
  rw [← length_axes, List.take_length, List.drop_length, List.append_nil] at h
  rwa [length_axes] at h

/-! ### Stretched layouts -/

theorem length_stretch? {targets entries : List Nat} (h : stretch? axes targets = some entries) :
    entries.length = axes.length := by
  induction axes generalizing targets entries with
  | nil =>
    obtain rfl : entries = [] := by simpa [stretch?] using h.symm
    rfl
  | cons a axes ih =>
    cases targets with
    | nil => simp [stretch?] at h
    | cons target targets =>
      obtain ⟨s, rest, hrest, rfl, -⟩ := stretch?_cons_eq_some.1 h
      rw [List.length_cons, List.length_cons, ih hrest]

theorem expand_eq_ok {target : Shape} : l.expand target = .ok l' ↔ l.rank ≤ target.rank ∧
    ∃ entries, stretch? l.axes (target.toList.drop (target.rank - l.rank)) = some entries ∧
      l' = ofEntries target (List.replicate (target.rank - l.rank) 0 ++ entries) := by
  unfold expand
  by_cases hrank : target.rank < l.rank
  · simp [hrank]
  · rw [if_neg hrank]
    have hle := Nat.le_of_not_lt hrank
    cases hs : stretch? l.axes (target.toList.drop (target.rank - l.rank)) with
    | none => simp [hs]
    | some entries => simpa [hs, hle] using eq_comm

/-- The axes in front are new and those after them are the stretched ones. -/
theorem axes_stretched {target : Shape} {entries : List Nat} (hle : l.rank ≤ target.rank)
    (h : stretch? l.axes (target.toList.drop (target.rank - l.rank)) = some entries) :
    (ofEntries target (List.replicate (target.rank - l.rank) 0 ++ entries)).axes =
      (target.toList.take (target.rank - l.rank)).zip (List.replicate (target.rank - l.rank) 0) ++
        (target.toList.drop (target.rank - l.rank)).zip entries := by
  have hlen := length_stretch? h
  rw [length_axes] at hlen
  rw [axes_ofEntries (by simp [hlen, hle]), ← List.zip_append (by simp), List.take_append_drop]

theorem maps_expand {target : Shape} (h : l.expand target = .ok l') :
    Maps l'.axes l.axes (fun index => collapse l.shape.toList (index.drop (target.rank - l.rank))) 0 := by
  obtain ⟨hle, entries, hs, rfl⟩ := expand_eq_ok.1 h
  rw [axes_stretched hle hs]
  generalize hlead : target.rank - l.rank = lead at hs ⊢
  have hfront := maps_append ((target.toList.take lead).zip (List.replicate lead 0))
    ((target.toList.drop lead).zip entries) fun a ha => List.eq_of_mem_replicate (List.of_mem_zip ha).2
  have hrest := maps_stretch hs (by rw [List.length_drop, Dims.length_toList, length_axes]; omega)
  have hlen : ((target.toList.take lead).zip (List.replicate lead 0)).length = lead := by
    rw [List.length_zip, List.length_take, Dims.length_toList, List.length_replicate]
    omega
  rw [← map_fst_axes]
  rw [hlen] at hfront
  exact hfront.trans hrest

end StridedTensor.Layout

/-! ### Permuted tensors -/

namespace StridedTensor.Tensor

theorem permute_eq_ok {t v : Tensor} {p : List Nat} : t.permute p = .ok v ↔
    (p.length = t.rank ∧ (∀ dim ∈ p, dim < t.rank) ∧ p.Nodup) ∧
      t.withLayout (t.layout.gather fun i => p.getD i 0) = v := by
  have hperm : Dims.isPermutation t.rank p = true ↔ _ := Layout.isPermutation_iff t.shape.rank_le
  unfold permute
  by_cases hp : Dims.isPermutation t.rank p = true
  · rw [if_pos hp, Except.ok.injEq]
    exact (and_iff_right (hperm.1 hp)).symm
  · rw [if_neg hp]
    exact iff_of_false (by simp) fun h => hp (hperm.2 h.1)

end StridedTensor.Tensor
