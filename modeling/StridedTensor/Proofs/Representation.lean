import StridedTensor.Proofs.Broadcasting
import StridedTensor.Proofs.Slots

/-!
# Bounded lists

The programs that make lists in memory out of others make those that the functions on `Dims` do: the strides of dense
layouts (`canonicalStrides?_toSlots`, `columnMajorStrides?_toSlots`), the shape that two shapes broadcast to
(`broadcast?_toSlots`), permuted and expanded layouts (`permute?_toSlots`, `expand?_toSlots`). So in any run nothing
comes about but lists with zeros behind the last entry (`reachable_iff`), for which the comparison of all slots is that
of the entries and the edits are those of any list, up to the bound (`BoundedList`).
-/

namespace StridedTensor

namespace Slots

variable {kind : DimsKind} {v w : Slots kind} {d e : Dims kind}

/-! ### Dense strides -/

private theorem columnMajor?_append_singleton (stride n : Nat) (ns : List Nat) :
    Shape.columnMajor? stride (ns ++ [n]) = (Shape.columnMajor? stride ns).bind fun entries =>
      (Word.mul? (stride * ns.prod) n).map fun _ => entries ++ [stride * ns.prod] := by
  induction ns generalizing stride with
  | nil =>
    simp only [List.nil_append, Shape.columnMajor?, List.prod_nil, Nat.mul_one]
    cases Word.mul? stride n <;> rfl
  | cons m ns ih =>
    rw [List.cons_append, Shape.columnMajor?, Shape.columnMajor?]
    cases hmul : Word.mul? stride m with
    | none => rfl
    | some next =>
      obtain ⟨-, rfl⟩ := Word.mul?_eq_some.1 hmul
      simp only [Option.bind_eq_bind, Option.bind_some, ih, List.prod_cons, Nat.mul_assoc]
      cases Shape.columnMajor? (stride * m) ns with
      | none => rfl
      | some entries =>
        simp only [Option.bind_some]
        cases Word.mul? (stride * (m * ns.prod)) n <;> rfl

/-- Row-major strides are the column-major ones of the dimensions listed backwards. -/
private theorem rowMajor?_eq_columnMajor? (size : Nat) (ns : List Nat) :
    (Shape.rowMajor? size ns).map Prod.fst = (Shape.columnMajor? size ns.reverse).map List.reverse := by
  induction ns with
  | nil => rfl
  | cons n ns ih =>
    rw [List.reverse_cons, columnMajor?_append_singleton, Shape.rowMajor?]
    cases hrow : Shape.rowMajor? size ns with
    | none =>
      have hnone : Shape.columnMajor? size ns.reverse = none := by simpa [hrow] using ih.symm
      rw [hnone]
      rfl
    | some result =>
      obtain ⟨entries, stride⟩ := result
      obtain ⟨-, rfl, -⟩ := Layout.rowMajor?_eq hrow
      obtain ⟨entries', hcol, hrev⟩ : ∃ entries', Shape.columnMajor? size ns.reverse = some entries' ∧
          entries'.reverse = entries := by simpa [hrow, eq_comm] using ih
      subst hrev
      rw [hcol, List.prod_reverse]
      simp only [Option.bind_eq_bind, Option.bind_some]
      cases Word.mul? (size * ns.prod) n <;> simp

/-- The loop writes the column-major strides of the extents in its order, each at the place of its dimension. -/
private theorem foldlM_stride? {order : List Nat} {shape : Shape} (h : ∀ dim ∈ order, dim < shape.rank)
    {v : Slots .strides}
    (stride : Nat) : (order.foldlM shape.toSlots.stride? (v, stride)).map Prod.fst =
      (Shape.columnMajor? stride (order.map shape.entry)).map fun entries => v.fill (order.zip entries) := by
  have hle := shape.rank_le
  induction order generalizing v stride with
  | nil => rfl
  | cons dim order ih =>
    have hdim := h dim List.mem_cons_self
    rw [List.foldlM_cons, List.map_cons, Shape.columnMajor?, stride?, write?_eq (Nat.lt_of_lt_of_le hdim hle),
      get?_toSlots hdim]
    simp only [Option.bind_eq_bind, Option.bind_some, Option.pure_def]
    cases Word.mul? stride (shape.entry dim) with
    | none => rfl
    | some next =>
      have hrec := ih (fun d hd => h d (List.mem_cons_of_mem _ hd)) (v := v.put dim stride) next
      simp only [Option.bind_some, hrec]
      cases Shape.columnMajor? next (order.map shape.entry) <;> rfl

/-- Filled in anywhere, strides are those of the layout if each stands at the place of its dimension. -/
private theorem fill_zeros {s : Shape} {entries : List Nat} {cells : List (Nat × Nat)}
    (hcells : ∀ cell ∈ cells, cell.1 < s.rank ∧ cell.2 = entries.getD cell.1 0)
    (hall : ∀ i < s.rank, i ∈ cells.map Prod.fst ∨ entries.getD i 0 = 0) :
    (zeros s.rank).fill cells = (s.strides entries).toSlots := by
  refine fill_eq_toSlots rfl (fun cell hcell => ?_) fun i hi => ?_
  · obtain ⟨hlt, hvalue⟩ := hcells cell hcell
    unfold Shape.strides
    rw [Dims.entry_build, if_pos hlt, hvalue]
  · unfold Shape.strides
    rw [slot_zeros, Dims.entry_build]
    by_cases hlt : i < s.rank
    · rw [if_pos hlt]
      exact (hall i hlt).imp_right Eq.symm
    · exact .inr (if_neg hlt).symm

/-- It does not matter in which order the places are filled. -/
private theorem fill_range {s : Shape} {entries : List Nat} {cells : List (Nat × Nat)} (hlen : entries.length = s.rank)
    (hcells : cells.Perm ((List.range s.rank).zip entries)) :
    (zeros s.rank).fill cells = (s.strides entries).toSlots := by
  refine fill_zeros (fun cell hcell => ?_) fun i hi => .inl ?_
  · obtain ⟨k, hk, rfl⟩ := List.mem_iff_getElem.1 (hcells.mem_iff.1 hcell)
    rw [List.length_zip, List.length_range] at hk
    simp [show k < entries.length by omega, show k < s.rank by omega]
  · rw [(hcells.map Prod.fst).mem_iff, List.map_fst_zip (by simp [hlen])]
    exact List.mem_range.2 hi

theorem columnMajorStrides?_toSlots (s : Shape) (t : ElementType) :
    s.toSlots.columnMajorStrides? t = (Layout.columnMajor s t).toOption.map fun l => l.strides.toSlots := by
  unfold columnMajorStrides? denseStrides? Layout.columnMajor
  rw [rank_toSlots, foldlM_stride? fun dim h => List.mem_range.1 h]
  show (Shape.columnMajor? t.size s.toList).map _ = _
  cases hcol : Shape.columnMajor? t.size s.toList with
  | none => rfl
  | some entries =>
    have hlen : entries.length = s.rank := by rw [(Layout.columnMajor?_eq hcol).1, Dims.length_toList]
    exact congrArg some (fill_range hlen (.refl _))

theorem canonicalStrides?_toSlots (s : Shape) (t : ElementType) :
    s.toSlots.canonicalStrides? t = (Layout.canonical s t).toOption.map fun l => l.strides.toSlots := by
  unfold canonicalStrides? denseStrides? Layout.canonical
  rw [rank_toSlots, foldlM_stride? fun dim h => by simpa using h, List.map_reverse]
  have hrev := rowMajor?_eq_columnMajor? t.size s.toList
  show (Shape.columnMajor? t.size s.toList.reverse).map _ = _
  cases hcol : Shape.columnMajor? t.size s.toList.reverse with
  | none =>
    have hnone : Shape.rowMajor? t.size s.toList = none := by simpa [hcol] using hrev
    rw [hnone]
    rfl
  | some entries =>
    obtain ⟨last, hrow⟩ : ∃ last, Shape.rowMajor? t.size s.toList = some (entries.reverse, last) := by
      simpa [hcol] using hrev
    have hlen : entries.length = s.rank := by
      rw [(Layout.columnMajor?_eq hcol).1, List.length_reverse, Dims.length_toList]
    rw [hrow]
    refine congrArg some (fill_range (by rw [List.length_reverse, hlen]) ?_)
    have hzip : (List.range s.rank).reverse.zip entries = ((List.range s.rank).zip entries.reverse).reverse := by
      rw [List.zip_eq_zipWith, List.zip_eq_zipWith, List.reverse_zipWith (by simp [hlen]), List.reverse_reverse]
    rw [hzip]
    exact List.reverse_perm _

/-! ### Broadcasting -/

private theorem mapM_range_succ (f : Nat → Option Nat) (n : Nat) : (List.range (n + 1)).mapM f =
    (f 0).bind fun x => ((List.range n).mapM fun i => f (i + 1)).map (x :: ·) := by
  rw [List.range_succ_eq_map, List.mapM_cons, List.mapM_map]
  cases f 0 with
  | none => rfl
  | some x =>
    show (((List.range n).mapM (f ∘ Nat.succ)).bind fun xs => some (x :: xs)) = _
    cases h : (List.range n).mapM (f ∘ Nat.succ) <;> simp_all [Function.comp_def]

private theorem mapM_range_getD (ys : List Nat) (d : Nat) :
    (List.range ys.length).mapM (fun i => some (ys.getD i d)) = some ys := by
  induction ys with
  | nil => rfl
  | cons y ys ih =>
    rw [List.length_cons, mapM_range_succ]
    simp only [List.getD_cons_zero, List.getD_cons_succ, ih]
    rfl

/-- Extents are joined place by place, and a place that one of the lists does not have counts as one. -/
private theorem joinExtents?_eq_mapM (xs ys : List Nat) : Shape.joinExtents? xs ys =
    (List.range (max xs.length ys.length)).mapM fun i => Shape.joinExtent? (xs.getD i 1) (ys.getD i 1) := by
  have hone : ∀ y, Shape.joinExtent? 1 y = some y := fun y => by
    unfold Shape.joinExtent?
    split <;> simp_all
  have hone' : ∀ x, Shape.joinExtent? x 1 = some x := fun x => by
    unfold Shape.joinExtent?
    split <;> simp_all
  induction xs generalizing ys with
  | nil => simp only [Shape.joinExtents?, List.length_nil, Nat.zero_max, List.getD_nil, hone, mapM_range_getD]
  | cons x xs ih =>
    cases ys with
    | nil => simp only [Shape.joinExtents?, List.length_nil, Nat.max_zero, List.getD_nil, hone', mapM_range_getD]
    | cons y ys =>
      rw [List.length_cons, List.length_cons, Nat.succ_max_succ, mapM_range_succ, Shape.joinExtents?, ih]
      simp only [List.getD_cons_zero, List.getD_cons_succ]
      cases Shape.joinExtent? x y with
      | none => rfl
      | some z =>
        simp only [Option.bind_eq_bind, Option.bind_some]
        cases (List.range (max xs.length ys.length)).mapM fun i => Shape.joinExtent? (xs.getD i 1) (ys.getD i 1) <;> rfl

private theorem trailing?_toSlots (s : Shape) (i : Nat) : s.toSlots.trailing? i = some (s.toList.reverse.getD i 1) := by
  unfold trailing? Word.sub?
  rw [rank_toSlots]
  by_cases hi : i + 1 ≤ s.rank
  · rw [if_pos hi]
    show s.toSlots.get? (s.rank - (i + 1)) = _
    rw [get?_toSlots (by omega), Dims.entry_eq_getD]
    have h1 : s.rank - (i + 1) < s.toList.length := by rw [Dims.length_toList]; omega
    have h2 : i < s.toList.reverse.length := by rw [List.length_reverse, Dims.length_toList]; omega
    simp only [List.getD_eq_getElem?_getD, List.getElem?_eq_getElem h1, List.getElem?_eq_getElem h2,
      List.getElem_reverse, Option.getD_some, Dims.length_toList]
    congr 2
    omega
  · rw [if_neg hi, List.getD_eq_default _ _ (by simp; omega)]

/-- Filled in from the last place to the first. -/
private theorem fill_backwards (s : Shape) : (zeros s.rank).fill
    (((List.range s.rank).map fun i => s.rank - 1 - i).zip s.toList.reverse) = s.toSlots := by
  refine fill_eq_toSlots rfl (fun cell hcell => ?_) fun i _ => ?_
  · obtain ⟨k, hk, rfl⟩ := List.mem_iff_getElem.1 hcell
    simp only [List.length_zip, List.length_map, List.length_range, List.length_reverse, Dims.length_toList,
      Nat.min_self] at hk
    simp [Dims.entry_eq_getD, show s.rank - 1 - k < s.rank by omega]
  · by_cases hlt : i < s.rank
    · left
      rw [List.map_fst_zip (by simp)]
      exact List.mem_map.2 ⟨s.rank - 1 - i, List.mem_range.2 (by omega), by omega⟩
    · right
      rw [slot_zeros, Dims.entry_eq_zero (Nat.le_of_not_lt hlt)]

theorem broadcast?_toSlots (a b : Shape) :
    broadcast? a.toSlots b.toSlots = (Shape.broadcast a b).toOption.map Dims.toSlots := by
  have ha := a.rank_le
  have hb := b.rank_le
  have hjoin := joinExtents?_eq_mapM a.toList.reverse b.toList.reverse
  simp only [List.length_reverse, Dims.length_toList] at hjoin
  unfold broadcast?
  simp only [rank_toSlots]
  refine (foldlM_eq_fill (fun i => max a.rank b.rank - 1 - i)
    (fun i => Shape.joinExtent? (a.toList.reverse.getD i 1) (b.toList.reverse.getD i 1)) fun w _ i hi => ?_).trans ?_
  · have hi := List.mem_range.1 hi
    have hplace : max a.rank b.rank - 1 - i < maxRank := by omega
    simp only [trailing?_toSlots, Option.bind_eq_bind, Option.bind_some, write?_eq hplace]
    exact (Option.map_eq_bind).symm
  · rw [← hjoin]
    rcases Shape.broadcast_cases a b with ⟨s, hs⟩ | ⟨hnone, hreject⟩
    · have hsome := Shape.broadcast_eq_ok_iff.1 hs
      have hrank := Shape.length_joinExtents? hsome
      simp only [List.length_reverse, Dims.length_toList] at hrank
      rw [hsome, hs, ← hrank]
      exact congrArg some (fill_backwards s)
    · rw [hnone, hreject]
      rfl

/-! ### Permuting and expanding -/

private theorem mapM_some {α : Type} (g : α → Nat) (xs : List α) :
    xs.mapM (fun x => some (g x)) = some (xs.map g) := by
  induction xs with
  | nil => rfl
  | cons x xs ih =>
    rw [List.mapM_cons, ih]
    rfl

private theorem permute?_toSlots_of_not {p : List Nat} (hp : ¬ Dims.isPermutation d.rank p = true) :
    d.toSlots.permute? p = none := if_neg hp

theorem permute?_toSlots {p : List Nat} (hp : Dims.isPermutation d.rank p = true) :
    d.toSlots.permute? p = some (d.gather fun i => p.getD i 0).toSlots := by
  have hle := d.rank_le
  obtain ⟨hlen, hall, -⟩ := (Layout.isPermutation_iff hle).1 hp
  have hlt : ∀ k (h : k < p.length), p[k] < d.rank := fun k h => hall p[k] (List.getElem_mem h)
  unfold permute?
  rw [rank_toSlots, if_pos hp]
  refine (foldlM_eq_fill Prod.snd (fun x => some (d.entry x.1)) fun w hw x hx => ?_).trans ?_
  · obtain ⟨k, hk, rfl⟩ := List.mem_iff_getElem.1 hx
    rw [List.length_zipIdx] at hk
    have hkd : k < d.rank := hlen ▸ hk
    simp only [List.getElem_zipIdx, Nat.zero_add, get?_toSlots (hlt k hk), Option.bind_eq_bind, Option.bind_some,
      Option.map_some]
    exact set?_eq (by rw [hw]; exact hkd) (by rw [hw]; exact hle)
  · rw [mapM_some]
    refine congrArg some (fill_eq_toSlots rfl (fun cell hcell => ?_) fun i hi => ?_)
    · obtain ⟨k, hk, rfl⟩ := List.mem_iff_getElem.1 hcell
      simp only [List.length_zip, List.length_map, List.length_zipIdx, Nat.min_self] at hk
      unfold Dims.gather
      rw [Dims.entry_build]
      simp [hk, hlen ▸ hk]
    · by_cases hlt : i < d.rank
      · left
        rw [List.map_fst_zip (by simp), List.zipIdx_map_snd]
        simpa [hlen] using hlt
      · right
        unfold Dims.gather
        rw [slot_toSlots, Dims.entry_build, if_neg hlt, Dims.entry_eq_zero (Nat.le_of_not_lt hlt)]

private theorem layoutStretch?_eq_mapM {axes : List Axis} {targets : List Nat} (h : targets.length = axes.length) :
    Layout.stretch? axes targets = (List.range axes.length).mapM fun i =>
      stretch? (axes.getD i (0, 0)).1 (axes.getD i (0, 0)).2 (targets.getD i 0) := by
  induction axes generalizing targets with
  | nil => rfl
  | cons a axes ih =>
    cases targets with
    | nil => simp at h
    | cons target targets =>
      rw [List.length_cons, mapM_range_succ, Layout.stretch?, ih (by simpa using h)]
      simp only [List.getD_cons_zero, List.getD_cons_succ, stretch?]
      split
      · exact (Option.map_eq_bind).symm
      · split
        · exact (Option.map_eq_bind).symm
        · rfl

private theorem ofList_replicate {n : Nat} (h : n ≤ maxRank) :
    (ofList (List.replicate n 0) : Result (Slots kind)) = .ok (zeros n) := by
  unfold ofList
  rw [List.length_replicate, if_neg (by omega)]
  refine congrArg Except.ok (ext_slot rfl fun i hi => ?_)
  rw [slot_zeros]
  simp only [slot, hi, Vector.getElem?_ofFn, dite_true, Option.getD_some, List.getD_eq_getElem?_getD,
    List.getElem?_replicate]
  split <;> rfl

/-- Filled in behind as many zeros as there are new dimensions. -/
private theorem fill_behind {s : Shape} {entries : List Nat} {lead : Nat} (hlen : lead + entries.length = s.rank) :
    (zeros s.rank).fill (((List.range entries.length).map fun i => lead + i).zip entries) =
      (s.strides (List.replicate lead 0 ++ entries)).toSlots := by
  refine fill_zeros (fun cell hcell => ?_) fun i hi => ?_
  · obtain ⟨k, hk, rfl⟩ := List.mem_iff_getElem.1 hcell
    simp only [List.length_zip, List.length_map, List.length_range, Nat.min_self] at hk
    simp [hk, ← hlen]
  · by_cases hnew : i < lead
    · right
      rw [List.getD_append _ _ _ _ (by simpa using hnew)]
      simp [hnew]
    · left
      rw [List.map_fst_zip (by simp)]
      exact List.mem_map.2 ⟨i - lead, List.mem_range.2 (by omega), by omega⟩

private theorem getD_axes {l : Layout} {dim : Nat} (h : dim < l.rank) :
    l.axes.getD dim (0, 0) = (l.shape.entry dim, l.strides.entry dim) := by
  rw [List.getD_eq_getElem?_getD, Layout.getElem?_axes h]
  rfl

private theorem getD_drop_toList {lead dim : Nat} (h : lead + dim < d.rank) :
    (d.toList.drop lead).getD dim 0 = d.entry (lead + dim) := by
  rw [List.getD_eq_getElem?_getD, List.getElem?_drop, Dims.getElem?_toList, if_pos h]
  rfl

/-- The loop stretches the axes one by one, each at the place that its extent has in the target. -/
private theorem foldlM_stretch? (l : Layout) {target : Shape} {lead : Nat} (hlead : lead + l.rank = target.rank)
    {v : Slots .strides} (hv : v.rank = target.rank) :
    ((List.range l.rank).foldlM (fun output dim => do
      output.set? (lead + dim) (← stretch? (← l.shape.toSlots.get? dim) (← l.strides.toSlots.get? dim)
        (← target.toSlots.get? (lead + dim)))) v) =
      (Layout.stretch? l.axes (target.toList.drop lead)).map fun entries =>
        v.fill (((List.range l.rank).map fun dim => lead + dim).zip entries) := by
  have hle := target.rank_le
  have hlength : (target.toList.drop lead).length = l.axes.length := by
    rw [List.length_drop, Dims.length_toList, l.length_axes]
    omega
  rw [layoutStretch?_eq_mapM hlength, l.length_axes]
  refine foldlM_eq_fill (fun dim => lead + dim) (fun dim => stretch? (l.axes.getD dim (0, 0)).1
    (l.axes.getD dim (0, 0)).2 ((target.toList.drop lead).getD dim 0)) fun w hw dim hdim => ?_
  have hdim : dim < l.rank := List.mem_range.1 hdim
  have hdim' : dim < l.strides.rank := l.same_rank.symm ▸ hdim
  have hplace : lead + dim < target.rank := by omega
  have hset : ∀ stride, w.set? (lead + dim) stride = some (w.put (lead + dim) stride) := fun stride =>
    set?_eq (by rw [hw, hv]; exact hplace) (by rw [hw, hv]; exact hle)
  simp only [get?_toSlots hdim, get?_toSlots hdim', get?_toSlots hplace, getD_axes hdim,
    getD_drop_toList hplace, hset, Option.bind_eq_bind, Option.bind_some, Option.map_eq_bind]
  rfl

theorem expand?_toSlots (l : Layout) (target : Shape) : expand? l.shape.toSlots l.strides.toSlots target.toSlots =
    (l.expand target).toOption.map fun l' => l'.strides.toSlots := by
  unfold expand? Layout.expand
  by_cases hrank : target.rank < l.rank
  · rw [if_pos (show target.toSlots.rank < l.shape.toSlots.rank from hrank), if_pos hrank]
    rfl
  · rw [if_neg (show ¬ target.toSlots.rank < l.shape.toSlots.rank from hrank), if_neg hrank]
    obtain ⟨lead, hlead⟩ : ∃ lead, lead + l.rank = target.rank := ⟨target.rank - l.rank, by omega⟩
    have hsub : target.rank - l.rank = lead := by omega
    simp only [rank_toSlots, ofList_replicate target.rank_le, Except.toOption, Option.bind_eq_bind, Option.bind_some]
    show List.foldlM _ _ (List.range l.rank) = _
    rw [show target.rank - l.shape.rank = lead from hsub, hsub]
    refine (foldlM_stretch? l hlead rfl).trans ?_
    cases hentries : Layout.stretch? l.axes (target.toList.drop lead) with
    | none => rfl
    | some entries =>
      have hlen : entries.length = l.rank := (Layout.length_stretch? hentries).trans l.length_axes
      rw [← hlen]
      exact congrArg some (fill_behind (by rw [hlen, hlead]))

/-! ### Runs -/

private theorem exists_after {α : Type} (d : Dims kind) (r : Result (α × Dims kind)) :
    ∃ e : Dims kind, e.toSlots = (d.toSlots.after r).2 := by
  cases r with
  | ok result => exact ⟨result.2, rfl⟩
  | error f => exact ⟨d, rfl⟩

private theorem reachable_toSlots (d : Dims kind) : Reachable d.toSlots := by
  have made : ofList d.toList = .ok d.toSlots := by
    rw [ofList_eq, Dims.ofList_toList]
    rfl
  exact .ofList made

theorem Reachable.exists_toSlots (h : Reachable v) : ∃ d : Dims kind, d.toSlots = v := by
  induction h with
  | empty =>
    refine ⟨Dims.empty, ext_slot rfl fun i _ => ?_⟩
    rw [slot_toSlots, Dims.entry_eq_zero (Nat.zero_le i)]
    exact (slot_zeros 0 i).symm
  | ofList made =>
    rw [ofList_eq] at made
    obtain ⟨d, -, hd⟩ := Result.map_eq_ok.1 made
    exact ⟨d, hd⟩
  | push base value ih =>
    obtain ⟨d, rfl⟩ := ih
    rw [push_toSlots]
    exact exists_after d _
  | insert base index value ih =>
    obtain ⟨d, rfl⟩ := ih
    rw [insert_toSlots]
    exact exists_after d _
  | remove base index ih =>
    obtain ⟨d, rfl⟩ := ih
    rw [remove_toSlots]
    exact exists_after d _
  | @set _ _ _ _ i value made ih =>
    obtain ⟨d, rfl⟩ := ih
    have hi : i < d.rank := by
      by_contra hge
      simp [set?, hge] at made
    rw [set?_toSlots hi] at made
    exact ⟨_, Option.some.inj made⟩
  | @swap _ _ _ _ i j made ih =>
    obtain ⟨d, rfl⟩ := ih
    have hi : i < d.rank := by
      by_contra hge
      simp [swap?, get?_toSlots_of_le (Nat.le_of_not_lt hge)] at made
    have hj : j < d.rank := by
      by_contra hge
      simp [swap?, get?_toSlots hi, get?_toSlots_of_le (Nat.le_of_not_lt hge)] at made
    rw [swap?_toSlots hi hj] at made
    exact ⟨_, Option.some.inj made⟩
  | @canonical s _ _ type made ih =>
    obtain ⟨d, rfl⟩ := ih
    rw [canonicalStrides?_toSlots] at made
    obtain ⟨l, -, rfl⟩ := Option.map_eq_some_iff.1 made
    exact ⟨l.strides, rfl⟩
  | columnMajor base made ih =>
    obtain ⟨d, rfl⟩ := ih
    rw [columnMajorStrides?_toSlots] at made
    obtain ⟨l, -, rfl⟩ := Option.map_eq_some_iff.1 made
    exact ⟨l.strides, rfl⟩
  | broadcast left right made ihLeft ihRight =>
    obtain ⟨a, rfl⟩ := ihLeft
    obtain ⟨b, rfl⟩ := ihRight
    rw [broadcast?_toSlots] at made
    obtain ⟨s, -, rfl⟩ := Option.map_eq_some_iff.1 made
    exact ⟨s, rfl⟩
  | @permute _ _ _ _ p made ih =>
    obtain ⟨d, rfl⟩ := ih
    have hp : Dims.isPermutation d.rank p = true := by
      by_contra hp
      simp [permute?_toSlots_of_not hp] at made
    rw [permute?_toSlots hp] at made
    exact ⟨_, Option.some.inj made⟩
  | expand ofShape ofStrides same ofTarget made ihShape ihStrides ihTarget =>
    obtain ⟨shape, rfl⟩ := ihShape
    obtain ⟨strides, rfl⟩ := ihStrides
    obtain ⟨target, rfl⟩ := ihTarget
    have hexpand := expand?_toSlots ⟨shape, strides, same⟩ target
    rw [made] at hexpand
    obtain ⟨l, -, rfl⟩ := Option.map_eq_some_iff.1 hexpand.symm
    exact ⟨l.strides, rfl⟩

/-- The lists that come about are those with nothing behind their last entry. -/
theorem reachable_iff : Reachable v ↔ ∃ d : Dims kind, d.toSlots = v := by
  refine ⟨Reachable.exists_toSlots, ?_⟩
  rintro ⟨d, rfl⟩
  exact reachable_toSlots d

/-- What the programs rely on in a list and what a reader may: two lists differ only where their entries do, and edits
are those of any list, but for the bound. -/
structure BoundedList (v : Slots kind) : Prop where
  rank_le : v.rank ≤ maxRank
  length_visible : v.visible.length = v.rank
  tail_zero : ∀ i (h : i < maxRank), v.rank ≤ i → v.data[i] = 0
  /-- The slots out of use do not matter to the comparison of counts and slots. -/
  beq_iff : ∀ w : Slots kind, Reachable w → ((v == w) = true ↔ v.visible = w.visible)
  insert : v.rank < maxRank → ∀ index value, index ≤ v.rank →
    ∃ w, v.insert index value = (.ok (), w) ∧ w.visible = v.visible.insertIdx index value
  push : v.rank < maxRank → ∀ value, ∃ w, v.push value = (.ok (), w) ∧ w.visible = v.visible ++ [value]
  remove : ∀ index (h : index < v.visible.length),
    ∃ w, v.remove index = (.ok v.visible[index], w) ∧ w.visible = v.visible.eraseIdx index
  /-- A full list stays as it is, and its rank is reported wherever the entry was to go. -/
  full : v.rank = maxRank → ∀ value, v.push value = (Result.reject (.rank (maxRank + 1)), v) ∧
    ∀ index, v.insert index value = (Result.reject (.rank (maxRank + 1)), v)
  past : v.rank < maxRank → ∀ index value, v.rank < index →
    v.insert index value = (Result.reject (.dim index (v.rank + 1)), v)
  /-- The list is one with nothing behind it, and edited as such. -/
  edits : ∃ d : Dims kind, d.toSlots = v ∧ d.toList = v.visible ∧
    (∀ index value, v.insert index value = v.after ((d.insert index value).map ((), ·))) ∧
    (∀ value, v.push value = v.after ((d.push value).map ((), ·))) ∧
    ∀ index, v.remove index = v.after (d.remove index)

private theorem insert_of_full (hfull : v.rank = maxRank) (index value : Nat) :
    v.insert index value = (Result.reject (.rank (maxRank + 1)), v) := by
  unfold Slots.insert
  rw [if_pos hfull, hfull]

private theorem insert_of_past (hroom : v.rank < maxRank) {index : Nat} (hpast : v.rank < index) (value : Nat) :
    v.insert index value = (Result.reject (.dim index (v.rank + 1)), v) := by
  unfold Slots.insert
  rw [if_neg (Nat.ne_of_lt hroom), if_pos hpast]

private theorem exists_insert_toSlots (hroom : d.rank < maxRank) {index : Nat} (hindex : index ≤ d.rank) (value : Nat) :
    ∃ w : Slots kind, d.toSlots.insert index value = (.ok (), w) ∧
      w.visible = d.toSlots.visible.insertIdx index value := by
  obtain ⟨e, he⟩ := (Dims.exists_insert_iff d index value).2 ⟨hindex, hroom⟩
  refine ⟨e.toSlots, ?_, ?_⟩
  · rw [insert_toSlots, he]
    rfl
  · rw [visible_toSlots, visible_toSlots, Dims.toList_insert he]

private theorem exists_push_toSlots (hroom : d.rank < maxRank) (value : Nat) :
    ∃ w : Slots kind, d.toSlots.push value = (.ok (), w) ∧ w.visible = d.toSlots.visible ++ [value] := by
  obtain ⟨w, hw, hvisible⟩ := exists_insert_toSlots hroom le_rfl value
  refine ⟨w, hw, ?_⟩
  rw [hvisible, visible_toSlots, ← Dims.length_toList d, List.insertIdx_length_self]

private theorem exists_remove_toSlots {index : Nat} (hindex : index < d.toSlots.visible.length) :
    ∃ w : Slots kind, d.toSlots.remove index = (.ok d.toSlots.visible[index], w) ∧
      w.visible = d.toSlots.visible.eraseIdx index := by
  have hlt : index < d.rank := by simpa using hindex
  refine ⟨(d.erase index).toSlots, ?_, ?_⟩
  · rw [remove_toSlots, Dims.remove, if_pos hlt]
    simp [after, Dims.entry_eq_getD, hlt]
  · rw [visible_toSlots, visible_toSlots, Dims.toList_erase hlt]

/-- After any run of the programs, a list in memory is a bounded list. -/
theorem Reachable.boundedList (h : Reachable v) : BoundedList v := by
  obtain ⟨d, rfl⟩ := h.exists_toSlots
  exact
    { rank_le := d.rank_le
      length_visible := by rw [visible_toSlots, Dims.length_toList, rank_toSlots]
      tail_zero := d.tail_zero
      beq_iff := by
        intro w hw
        obtain ⟨e, rfl⟩ := hw.exists_toSlots
        rw [beq_iff_eq, visible_toSlots, visible_toSlots, Dims.toList_inj]
        exact toSlots_inj
      insert := fun hroom _ value hindex => exists_insert_toSlots hroom hindex value
      push := exists_push_toSlots
      remove := fun _ => exists_remove_toSlots
      full := fun hfull value => ⟨insert_of_full hfull _ value, fun index => insert_of_full hfull index value⟩
      past := fun hroom _ value hpast => insert_of_past hroom hpast value
      edits := ⟨d, rfl, (visible_toSlots d).symm, insert_toSlots d, push_toSlots d, remove_toSlots d⟩ }

/-- What an insertion and a removal leave of the strides `[12, 4]`. -/
def editedStrides : Slots .strides :=
  (((⟨2, #v[12, 4, 0, 0, 0, 0, 0, 0]⟩ : Slots .strides).insert 1 99).2.remove 0).2

theorem editedStrides_boundedList :
    ofList [99, 4] = .ok editedStrides ∧ Reachable editedStrides ∧ BoundedList editedStrides := by
  have hmade : ofList [12, 4] = .ok (⟨2, #v[12, 4, 0, 0, 0, 0, 0, 0]⟩ : Slots .strides) := by rfl
  have hreachable : Reachable editedStrides := ((Reachable.ofList hmade).insert 1 99).remove 0
  exact ⟨by rfl, hreachable, hreachable.boundedList⟩

end Slots

end StridedTensor
