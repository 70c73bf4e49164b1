import StridedTensor.Proofs.Elementwise
import StridedTensor.Proofs.Rows
import StridedTensor.Proofs.Widening

/-!
# Selection of the greatest element

The search for the greatest element of each row writes the position of the first of them, and the reduction to the
maximum writes an element that is equal to it (`Context.argmax_selects`), whatever NaNs follow the first element of the
row and whatever the outputs share with the rows. The two agree although they begin differently: the reduction begins
with minus infinity and passes over every NaN, the search begins with the first element. So a NaN that comes first is
never left again, and zero is written for its row (`ReduceOp.argmax_of_isNaN`).
-/

namespace StridedTensor

namespace Binary

variable {f : Format} {x y best m : Binary f} {xs : List (Binary f)} {i : Nat}

theorem lt_iff : x.lt y = true ↔ x.isNaN = false ∧ y.isNaN = false ∧ x.rank < y.rank := by
  simp [lt, and_assoc]

theorem lt_eq_false_iff (hx : x.isNaN = false) (hy : y.isNaN = false) : x.lt y = false ↔ y.rank ≤ x.rank := by
  simp [lt, hx, hy]

private theorem same_of_not_lt (hx : x.isNaN = false) (hy : y.isNaN = false) (hle : x.lt y = false)
    (hge : y.lt x = false) :
    x.same y = true := by
  rw [same_eq_lt, hx, hy, hle, hge]
  rfl

/-! ### Greatest elements of a list -/

/-- A number that no element is greater than. -/
structure Dominates (xs : List (Binary f)) (m : Binary f) : Prop where
  number : m.isNaN = false
  greatest : ∀ x ∈ xs, m.lt x = false

/-- A greatest element, or minus infinity. -/
structure IsMax (xs : List (Binary f)) (m : Binary f) : Prop extends Dominates xs m where
  mem : m ∈ xs ∨ m = infinity true

/-- The first of the greatest elements, with its position: no earlier element is equal to it. -/
structure IsFirstMax (xs : List (Binary f)) (i : Nat) (best : Binary f) : Prop extends Dominates xs best where
  getElem? : xs[i]? = some best
  first : ∀ k < i, ∀ x, xs[k]? = some x → x.same best = false

namespace Dominates

private theorem singleton (hx : x.isNaN = false) : Dominates [x] x :=
  ⟨hx, List.forall_mem_singleton.2 ((lt_eq_false_iff hx hx).2 le_rfl)⟩

private theorem snoc_of_not_lt (h : Dominates xs m) (hx : m.lt x = false) : Dominates (xs ++ [x]) m :=
  ⟨h.number, List.forall_mem_append.2 ⟨h.greatest, List.forall_mem_singleton.2 hx⟩⟩

/-- Every number among the elements so far is less than one that is greater than `m`. -/
private theorem rank_lt (h : Dominates xs m) (hx : m.lt x = true) (hy : y ∈ xs) (hnan : y.isNaN = false) :
    y.rank < x.rank := by
  obtain ⟨-, -, hrank⟩ := lt_iff.1 hx
  exact ((lt_eq_false_iff h.number hnan).1 (h.greatest y hy)).trans_lt hrank

private theorem snoc_of_lt (h : Dominates xs m) (hx : m.lt x = true) : Dominates (xs ++ [x]) x := by
  obtain ⟨-, hnan, -⟩ := lt_iff.1 hx
  refine ⟨hnan, List.forall_mem_append.2 ⟨fun y hy => ?_, (singleton hnan).greatest⟩⟩
  rw [← Bool.not_eq_true, lt_iff]
  rintro ⟨-, hynan, hrank⟩
  exact Int.lt_asymm (h.rank_lt hx hy hynan) hrank

/-- A greater element is the first of its kind. -/
private theorem replace (h : Dominates xs m) (hx : m.lt x = true) : IsFirstMax (xs ++ [x]) xs.length x := by
  refine ⟨h.snoc_of_lt hx, List.getElem?_concat_length, fun k hk y hy => ?_⟩
  rw [List.getElem?_append_left hk] at hy
  cases hnan : y.isNaN with
  | true => rw [same, hnan]; rfl
  | false => rw [same, decide_eq_false (h.rank_lt hx (List.mem_of_getElem? hy) hnan).ne, Bool.and_false]

end Dominates

theorem isNaN_infinity (negative : Bool) : (infinity negative : Binary f).isNaN = false := by
  rw [← Bool.not_eq_true, isNaN_iff, infinity, magnitude_ofMagnitude _ f.infinityBits_lt]
  exact Nat.lt_irrefl _

/-- Nothing but itself is as low as minus infinity. -/
theorem eq_infinity_of_not_lt (hf : 0 < f.infinityBits) (hx : x.isNaN = false) (h : (infinity true).lt x = false) :
    x = infinity true := by
  have hle := magnitude_le x hx
  have hrank := (lt_eq_false_iff (isNaN_infinity true) hx).1 h
  unfold rank infinity at hrank
  rw [isNegative_ofMagnitude _ f.infinityBits_lt, magnitude_ofMagnitude _ f.infinityBits_lt, if_pos rfl] at hrank
  cases hs : x.isNegative with
  | false =>
    simp only [hs, Bool.false_eq_true, if_false] at hrank
    omega
  | true =>
    rw [hs, if_pos rfl] at hrank
    rw [← ofMagnitude_magnitude x, hs, show x.magnitude = f.infinityBits by omega, infinity]

/-- Where some element is a number, the maximum is an element that is equal to the greatest ones. -/
private theorem IsMax.mem_and_same (hf : 0 < f.infinityBits) (h : IsMax xs m) (hbest : IsFirstMax xs i best) :
    m ∈ xs ∧ best.same m = true := by
  have hmem := List.mem_of_getElem? hbest.getElem?
  have hm : m ∈ xs := by
    rcases h.mem with hm | rfl
    · exact hm
    · rwa [← eq_infinity_of_not_lt hf hbest.number (h.greatest best hmem)]
  exact ⟨hm, same_of_not_lt hbest.number h.number (hbest.greatest m hm) (h.greatest best hmem)⟩

namespace IsFirstMax

private theorem lt_length (h : IsFirstMax xs i best) : i < xs.length := (List.getElem?_eq_some_iff.1 h.getElem?).1

private theorem singleton (hx : x.isNaN = false) : IsFirstMax [x] 0 x :=
  ⟨.singleton hx, rfl, fun _ hk => absurd hk (Nat.not_lt_zero _)⟩

private theorem keep (h : IsFirstMax xs i best) (hx : best.lt x = false) : IsFirstMax (xs ++ [x]) i best := by
  refine ⟨h.snoc_of_not_lt hx, ?_, fun k hk y hy => ?_⟩
  · rw [List.getElem?_append_left h.lt_length]
    exact h.getElem?
  · rw [List.getElem?_append_left (hk.trans h.lt_length)] at hy
    exact h.first k hk y hy

/-- One step of the search, which counts the elements after the first. -/
private theorem step {n : Nat} (h : IsFirstMax xs i best) (hn : xs.length = n + 1) (x : Binary f) :
    ∃ i' best', ReduceOp.argmax.step (n, i, best) x = (n + 1, i', best') ∧ IsFirstMax (xs ++ [x]) i' best' := by
  by_cases hx : best.lt x = true
  · exact ⟨n + 1, x, by rw [ReduceOp.argmax.step, if_pos hx], hn ▸ h.replace hx⟩
  · exact ⟨i, best, by rw [ReduceOp.argmax.step, if_neg hx], h.keep (Bool.not_eq_true _ ▸ hx)⟩

private theorem foldl {n : Nat} (h : IsFirstMax xs i best) (hn : xs.length = n + 1) (ys : List (Binary f)) :
    ∃ best', IsFirstMax (xs ++ ys) (ys.foldl ReduceOp.argmax.step (n, i, best)).2.1 best' := by
  induction ys generalizing xs i best n with
  | nil => exact ⟨best, by rwa [List.append_nil]⟩
  | cons y ys ih =>
    obtain ⟨i', best', hstep, h'⟩ := h.step hn y
    obtain ⟨last, hlast⟩ := ih h' (by rw [List.length_append, hn, List.length_singleton])
    rw [List.append_assoc] at hlast
    exact ⟨last, by rw [List.foldl_cons, hstep]; exact hlast⟩

/-- The elements of a row are compared as well before they are widened. -/
private theorem of_widen {t : FloatType} {xs : List (Binary t.format)} {best : Binary t.accumulator}
    (h : IsFirstMax (xs.map t.widen) i best) : ∃ a, t.widen a = best ∧ IsFirstMax xs i a := by
  have hget := h.getElem?
  rw [List.getElem?_map, Option.map_eq_some_iff] at hget
  obtain ⟨a, ha, rfl⟩ := hget
  refine ⟨a, rfl, ⟨(t.isNaN_widen a).symm.trans h.number, fun y hy => ?_⟩, ha, fun k hk y hy => ?_⟩
  · rw [← t.lt_widen]
    exact h.greatest _ (List.mem_map_of_mem hy)
  · rw [← t.same_widen]
    exact h.first k hk _ (by rw [List.getElem?_map, hy]; rfl)

end IsFirstMax

/-- The first of the greatest elements, or minus infinity as long as nothing greater has been found. -/
structure Leads (xs : List (Binary f)) (m : Binary f) : Prop extends Dominates xs m where
  first : m = infinity true ∨ ∃ i, IsFirstMax xs i m

namespace Leads

theorem nil : Leads [] (infinity true : Binary f) := ⟨⟨isNaN_infinity true, by simp⟩, .inl rfl⟩

/-- What was found so far stays the greatest one, unless the next element is greater. -/
private theorem snoc (h : Leads xs m) (x : Binary f) : Leads (xs ++ [x]) (ReduceOp.max.combine m x) := by
  show Leads _ (if m.lt x then x else m)
  by_cases hx : m.lt x = true
  · rw [if_pos hx]
    exact ⟨h.snoc_of_lt hx, .inr ⟨_, h.replace hx⟩⟩
  · rw [if_neg hx]
    have hkeep := Bool.not_eq_true _ ▸ hx
    exact ⟨h.snoc_of_not_lt hkeep, h.first.imp_right fun ⟨i, hi⟩ => ⟨i, hi.keep hkeep⟩⟩

theorem foldl (h : Leads xs m) (ys : List (Binary f)) : Leads (xs ++ ys) (ys.foldl ReduceOp.max.combine m) := by
  induction ys generalizing xs m with
  | nil => rwa [List.append_nil]
  | cons y ys ih =>
    have := ih (h.snoc y)
    rwa [List.append_assoc] at this

private theorem isMax (h : Leads xs m) : IsMax xs m :=
  ⟨h.toDominates, h.first.symm.imp_left fun ⟨_, hi⟩ => List.mem_of_getElem? hi.getElem?⟩

end Leads

end Binary

/-! ### The search and the reduction -/

namespace ReduceOp

open Binary

variable {f : Format} {x : Binary f} {xs : List (Binary f)}

private theorem argmax_of_number (hx : x.isNaN = false) (xs : List (Binary f)) :
    ∃ best, IsFirstMax (x :: xs) (argmax (x :: xs)) best :=
  (IsFirstMax.singleton hx).foldl rfl xs

theorem argmax_of_isNaN (hx : x.isNaN = true) : argmax (x :: xs) = 0 := by
  have hnever (y : Binary f) : x.lt y = false := by simp [lt, hx]
  have hrun : ∀ n, (xs.foldl argmax.step (n, 0, x)).2.1 = 0 := by
    induction xs with
    | nil => exact fun _ => rfl
    | cons y ys ih =>
      intro n
      rw [List.foldl_cons, argmax.step, hnever y]
      exact ih (n + 1)
  exact hrun 0

private theorem isMax_reduce : IsMax (x :: xs) (max.reduce (x :: xs)) := (Leads.nil.foldl (x :: xs)).isMax

private theorem argmax_lt {t : FloatType} {a : Binary t.format} {row : List (Binary t.format)} :
    argmax ((a :: row).map t.widen) < (a :: row).length := by
  cases ha : (t.widen a).isNaN with
  | true =>
    rw [List.map_cons, argmax_of_isNaN ha]
    exact Nat.succ_pos _
  | false =>
    obtain ⟨best, hbest⟩ := argmax_of_number ha (row.map t.widen)
    simpa using hbest.lt_length

/-- The search in a row that begins with a number finds the first of the elements that equal the stored maximum. -/
private theorem argmax_widen {t : FloatType} {a : Binary t.format} (ha : a.isNaN = false)
    (row : List (Binary t.format)) :
    ∃ best, IsFirstMax (a :: row) (argmax ((a :: row).map t.widen)) best ∧
      best.same (t.narrow (max.reduce ((a :: row).map t.widen))) = true := by
  have hpos : 0 < t.accumulator.infinityBits := by cases t <;> decide
  obtain ⟨wide, hwide⟩ := argmax_of_number ((t.isNaN_widen a).trans ha) (row.map t.widen)
  obtain ⟨hmem, hsame⟩ := isMax_reduce.mem_and_same hpos hwide
  rw [← List.map_cons] at hwide
  obtain ⟨best, rfl, hbest⟩ := hwide.of_widen
  obtain ⟨b, -, hb⟩ := List.mem_map.1 (show _ ∈ (a :: row).map t.widen from hmem)
  refine ⟨best, hbest, ?_⟩
  have hnan : b.isNaN = false := by
    rw [← t.isNaN_widen, hb]
    exact isMax_reduce.number
  rw [List.map_cons, ← hb, t.narrow_widen hnan, ← t.same_widen, hb]
  exact hsame

end ReduceOp

/-! ### What is written -/

/-- The positions in a row that fit in 32 bits are written as they are. -/
private theorem IndexType.toInt_ofPosition (index : IndexType) {n : Nat} (hn : n < 2 ^ 31) :
    (Scalar.ofNat index.element (index.ofPosition n).toNat).toInt = n := by
  have hfit : n < 2 ^ index.element.width ∧ 2 * n < 2 ^ index.element.width := by
    cases index <;> simp only [element, ElementType.width] <;> omega
  have hsigned : index.element.isSigned = true := by cases index <;> rfl
  rw [Scalar.toInt, Scalar.ofNat, if_pos hsigned, ofPosition, BitVec.ofNat_toNat, BitVec.setWidth_eq,
    BitVec.toInt_eq_toNat_cond, BitVec.toNat_ofNat, Nat.mod_eq_of_lt hfit.1, if_pos hfit.2]

namespace Context

open Binary

variable {c c' : Context} {x output : Tensor} {t : FloatType} {outers : List Nat} {inner r : Nat}

/-- The position `i` is that of the first of the greatest elements of row `r`, which are equal to what the reduction to
the maximum writes for that row into any output. If the row begins with a NaN, it is that of the NaN. -/
structure Selects (c : Context) (t : FloatType) (x : Tensor) (r : Nat) (row : List (Binary t.format)) (i : Nat) :
    Prop where
  elements : ∀ k < row.length, row[k]? = c.element? t x (r * row.length + k)
  below : i < row.length
  of_isNaN : ∀ a, row[0]? = some a → a.isNaN = true → i = 0
  of_number : ∀ a, row[0]? = some a → a.isNaN = false → ∃ best, IsFirstMax row i best ∧
    ∀ o c₂, c.launch (.reduceLast .max x o) = (.ok (), c₂) → ¬ c.Skips (.reduceLast .max x o) →
      ∃ m, c₂.get o (Shape.indexAt o.shape.toList r) = .ok (Scalar.ofBinary t m) ∧ best.same m = true

theorem selects_row (hrows : Kernel.Rowwise x output t outers inner) (hx : c.Ready t x) (hinner : inner ≠ 0)
    (hr : r < outers.prod) :
    c.Selects t x r (c.row t x inner r) (ReduceOp.argmax ((c.row t x inner r).map t.widen)) := by
  have hlength := length_row (c := c) hrows hr
  have helements : ∀ k < (c.row t x inner r).length,
      (c.row t x inner r)[k]? = c.element? t x (r * (c.row t x inner r).length + k) := by
    rw [hlength]
    exact fun k hk => getElem?_row hx hk
  -- every output gets the maximum of the same row
  have hmax : ∀ o c₂, c.launch (.reduceLast .max x o) = (.ok (), c₂) → ¬ c.Skips (.reduceLast .max x o) →
      c₂.get o (Shape.indexAt o.shape.toList r) =
        .ok (Scalar.ofBinary t (t.narrow (ReduceOp.max.reduce ((c.row t x inner r).map t.widen)))) := by
    intro o c₂ h hskip
    obtain ⟨t', outers', inner', hrows', -, hwritten⟩ := launch_reduceLast h hskip
    obtain ⟨rfl, hlast⟩ := List.append_inj' (hrows.shape.symm.trans hrows'.shape) rfl
    obtain rfl : inner = inner' := by simpa using hlast
    obtain rfl : t = t' := Option.some.inj (by
      rw [← t.float?_element, ← hx.type, hrows'.type, t'.float?_element])
    obtain ⟨-, hget⟩ := hwritten r hr
    rw [if_neg hinner] at hget
    exact hget
  generalize c.row t x inner r = row at hlength helements hmax ⊢
  cases row with
  | nil => exact absurd hlength.symm hinner
  | cons a row =>
    refine ⟨helements, ReduceOp.argmax_lt, ?_, ?_⟩
    · rintro _ ⟨⟩ ha
      exact ReduceOp.argmax_of_isNaN ((t.isNaN_widen a).trans ha)
    · rintro _ ⟨⟩ ha
      obtain ⟨best, hbest, hsame⟩ := ReduceOp.argmax_widen ha row
      exact ⟨best, hbest, fun o c₂ h hskip => ⟨_, hmax o c₂ h hskip, hsame⟩⟩

/-- What a search that was not skipped has written: for each row the position of the first of its greatest elements,
which equal the maximum of the row, or zero for a row that begins with a NaN. -/
theorem argmax_selects (h : c.launch (.argmax x output) = (.ok (), c')) (hskip : ¬ c.Skips (.argmax x output)) :
    ∃ t outers inner, x.type = FloatType.element t ∧ x.shape.toList = outers ++ [inner] ∧
      output.shape.toList.prod = outers.prod ∧ (0 < inner → inner ≤ 2 ^ 31 → ∀ r < outers.prod, ∃ row i, ∃ s : Scalar,
        row.length = inner ∧ c.Selects t x r row i ∧ s.type = output.type ∧ s.toInt = i ∧
        c'.get output (Shape.indexAt output.shape.toList r) = .ok s) := by
  obtain ⟨t, index, outers, inner, hrows, htype, hwritten⟩ := launch_argmax h hskip
  refine ⟨t, outers, inner, hrows.type, hrows.shape, hrows.count, fun hpos hlimit r hr => ?_⟩
  obtain ⟨hx, hget⟩ := hwritten r hr
  rw [if_neg hpos.ne'] at hget
  have hselects := selects_row hrows hx hpos.ne' hr
  have hlength := length_row (c := c) hrows hr
  have hbelow := hselects.below
  exact ⟨_, _, _, hlength, hselects, htype.symm, index.toInt_ofPosition (by omega), hget⟩

/-- Two rows of four floats, each of them with the number one, a NaN and twice the number two. -/
def rowsWithNaN : Context where
  allocator := 0
  arena := ⟨[(7, ⟨4096, (Kernel.store .f32 [0x3f800000, 0x7fc00000, 0x40000000, 0x40000000,
    0x7fc00000, 0x3f800000, 0x40000000, 0x40000000]).toArray, 64, .cpu, .owned 0⟩)], by simp⟩
  strict := true
  alignment := 64

/-- The positions are written over the second and the third element of the first row. -/
theorem rowsWithNaN_selects : ∃ c', rowsWithNaN.launch
      (.argmax (floatsFrom 0 [2, 4] [16, 4]) { floatsFrom 1 [2] [4] with type := .i32 }) = (.ok (), c') ∧
    c'.get { floatsFrom 1 [2] [4] with type := .i32 } [0] = .ok (Scalar.ofInt .i32 2) ∧
    c'.get { floatsFrom 1 [2] [4] with type := .i32 } [1] = .ok (Scalar.ofInt .i32 0) ∧
    ∃ t outers inner, (floatsFrom 0 [2, 4] [16, 4]).type = FloatType.element t ∧
      (floatsFrom 0 [2, 4] [16, 4]).shape.toList = outers ++ [inner] ∧
      (floatsFrom 1 [2] [4]).shape.toList.prod = outers.prod ∧ (0 < inner → inner ≤ 2 ^ 31 → ∀ r < outers.prod,
        ∃ row i, ∃ s : Scalar, row.length = inner ∧ rowsWithNaN.Selects t (floatsFrom 0 [2, 4] [16, 4]) r row i ∧
          s.type = .i32 ∧ s.toInt = i ∧
          c'.get { floatsFrom 1 [2] [4] with type := .i32 } (Shape.indexAt (floatsFrom 1 [2] [4]).shape.toList r) =
            .ok s) := by
  have hlaunch : (rowsWithNaN.launch
      (.argmax (floatsFrom 0 [2, 4] [16, 4]) { floatsFrom 1 [2] [4] with type := .i32 })).1 = .ok () := rfl
  exact ⟨_, Prod.ext hlaunch rfl, rfl, rfl,
    argmax_selects (Prod.ext hlaunch rfl) fun hskip => absurd hskip.1 (by decide)⟩

end Context

namespace Session

/-- A row of a NaN and the number one, and outputs for its search and its maximum. -/
def leadingNaN : List Event := [.build {}, .command 0 (.ofList "x" .f32 [0x7fc00000#32, 0x3f800000#32] [1, 2] .cpu),
  .command 0 (.alloc "o" [1] .i32 .cpu), .command 0 (.alloc "m" [1] .f32 .cpu)]

/-- The search finds the NaN where the maximum is one. -/
theorem leadingNaN_selects : ∃ s c x o m, initial.performAll leadingNaN = some s ∧ s.context? 0 = some c ∧
    s.tensor? "x" = some x ∧ s.tensor? "o" = some o ∧ s.tensor? "m" = some m ∧ c.strict = true ∧
    x.shape.toList = [1, 2] ∧ c.element? .f32 x 0 = some (Binary.ofNat .single 0x7fc00000) ∧
    c.element? .f32 x 1 = some (Binary.ofInt .single 1) ∧
    (Binary.ofNat .single 0x7fc00000).isNaN = true ∧ (Binary.ofInt .single 1).isNaN = false ∧
    (c.launch (.argmax x o)).1 = .ok () ∧ (c.launch (.argmax x o)).2.get o [0] = .ok (Scalar.ofInt .i32 0) ∧
    (c.launch (.reduceLast .max x m)).1 = .ok () ∧
    (c.launch (.reduceLast .max x m)).2.get m [0] = .ok Scalar.oneF32 := by
  obtain ⟨s, hs⟩ : ∃ s, initial.performAll leadingNaN = some s := Option.isSome_iff_exists.1 rfl
  have hfound : ((initial.performAll leadingNaN).bind fun s => do
      let c ← s.context? 0
      let x ← s.tensor? "x"
      let o ← s.tensor? "o"
      let m ← s.tensor? "m"
      return (c.strict, x.shape.toList, c.element? .f32 x 0, c.element? .f32 x 1, (c.launch (.argmax x o)).1,
        (c.launch (.argmax x o)).2.get o [0], (c.launch (.reduceLast .max x m)).1,
        (c.launch (.reduceLast .max x m)).2.get m [0])) =
      some (true, [1, 2], some (Binary.ofNat FloatType.f32.format 0x7fc00000),
        some (Binary.ofInt FloatType.f32.format 1), .ok (), .ok (Scalar.ofInt .i32 0), .ok (), .ok Scalar.oneF32) := rfl
  simp only [hs, Option.bind_eq_bind, Option.bind_some, Option.bind_eq_some_iff, Option.pure_def, Option.some.injEq,
    Prod.mk.injEq] at hfound
  obtain ⟨c, hc, x, hx, o, ho, m, hm, hstrict, hshape, hnan, hone, hfound⟩ := hfound
  exact ⟨s, c, x, o, m, hs, hc, hx, ho, hm, hstrict, hshape, hnan, hone, by decide, by decide, hfound⟩

end Session

end StridedTensor
