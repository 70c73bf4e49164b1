import Mathlib.Order.Bounds.Basic
import StridedTensor.Proofs.ViewAlgebra

/-!
# Broadcasting as a join

The shapes that tensors of one shape expand to are those above it in a partial order: seen from the last dimension, each
extent stays or was one, and new dimensions come first (`Tensor.exists_expand_iff`). Broadcasting yields the least upper
bound of two shapes wherever they have an upper bound (`Shape.broadcast_eq_ok`, `Shape.exists_broadcast_iff`), and its
laws are those of least upper bounds (`Shape.broadcast_isLUB`).
-/

namespace StridedTensor

namespace Shape

variable {xs ys zs ws : List Nat} {x y z w : Nat}

/-! ### Extents that stretch -/

/-- Extents from the last dimension on, and those that they stretch to. -/
def Stretches : List Nat → List Nat → Prop
  | [], _ => True
  | _ :: _, [] => False
  | x :: xs, y :: ys => (x = y ∨ x = 1) ∧ Stretches xs ys

@[simp] theorem stretches_nil (ys : List Nat) : Stretches [] ys := trivial

@[simp] theorem not_stretches_nil (x : Nat) (xs : List Nat) : ¬ Stretches (x :: xs) [] := id

@[simp] theorem stretches_cons : Stretches (x :: xs) (y :: ys) ↔ (x = y ∨ x = 1) ∧ Stretches xs ys := Iff.rfl

theorem Stretches.refl (xs : List Nat) : Stretches xs xs := by
  induction xs with
  | nil => trivial
  | cons x xs ih => exact ⟨.inl rfl, ih⟩

private theorem Stretches.exists_cons (h : Stretches (x :: xs) ys) :
    ∃ y rest, ys = y :: rest ∧ (x = y ∨ x = 1) ∧ Stretches xs rest := by
  cases ys with
  | nil => exact absurd h (not_stretches_nil x xs)
  | cons y ys => exact ⟨y, ys, rfl, h⟩

theorem Stretches.trans (h : Stretches xs ys) (h' : Stretches ys zs) : Stretches xs zs := by
  induction xs generalizing ys zs with
  | nil => trivial
  | cons x xs ih =>
    obtain ⟨y, ys, rfl, hxy, hrest⟩ := h.exists_cons
    obtain ⟨z, zs, rfl, hyz, hrest'⟩ := h'.exists_cons
    exact ⟨by omega, ih hrest hrest'⟩

theorem Stretches.antisymm (h : Stretches xs ys) (h' : Stretches ys xs) : xs = ys := by
  induction xs generalizing ys with
  | nil =>
    cases ys with
    | nil => rfl
    | cons y ys => exact absurd h' (not_stretches_nil y ys)
  | cons x xs ih =>
    obtain ⟨y, ys, rfl, hxy, hrest⟩ := h.exists_cons
    obtain ⟨hyx, hrest'⟩ := stretches_cons.1 h'
    rw [ih hrest hrest', show x = y by omega]

private theorem stretches_iff_forall₂ :
    Stretches xs ys ↔ xs.length ≤ ys.length ∧ List.Forall₂ (fun x y => x = y ∨ x = 1) xs (ys.take xs.length) := by
  induction xs generalizing ys with
  | nil => simp
  | cons x xs ih =>
    cases ys with
    | nil => simp
    | cons y ys =>
      rw [stretches_cons, ih, List.length_cons, List.length_cons, List.take_succ_cons, List.forall₂_cons,
        Nat.succ_le_succ_iff]
      exact and_left_comm

/-- A shape is below those that tensors of this shape expand to. -/
instance : PartialOrder Shape where
  le a b := Stretches a.toList.reverse b.toList.reverse
  le_refl a := .refl a.toList.reverse
  le_trans _ _ _ h h' := h.trans h'
  le_antisymm a b h h' := Dims.toList_inj.1 (List.reverse_injective (h.antisymm h'))

variable {a b c s : Shape}

theorem le_iff_stretches : a ≤ b ↔ Stretches a.toList.reverse b.toList.reverse := Iff.rfl

theorem le_iff_forall₂ : a ≤ b ↔ a.rank ≤ b.rank ∧
    List.Forall₂ (fun x y => x = y ∨ x = 1) a.toList (b.toList.drop (b.rank - a.rank)) := by
  rw [le_iff_stretches, stretches_iff_forall₂, List.length_reverse, List.length_reverse, Dims.length_toList,
    Dims.length_toList, List.take_reverse, List.forall₂_reverse_iff, Dims.length_toList]

theorem empty_le (a : Shape) : Dims.empty ≤ a := stretches_nil _

/-! ### Joining extents -/

private theorem joinExtent?_eq_some :
    joinExtent? x y = some z ↔ (x = z ∨ x = 1) ∧ (y = z ∨ y = 1) ∧ (z = x ∨ z = y) := by
  unfold joinExtent?
  by_cases hxy : x = y
  · rw [if_pos hxy, Option.some.injEq]
    omega
  · by_cases hx : x = 1
    · rw [if_neg hxy, if_pos hx, Option.some.injEq]
      omega
    · by_cases hy : y = 1
      · rw [if_neg hxy, if_neg hx, if_pos hy, Option.some.injEq]
        omega
      · rw [if_neg hxy, if_neg hx, if_neg hy]
        exact iff_of_false (by simp) (by omega)

private theorem exists_joinExtent? (hx : x = w ∨ x = 1) (hy : y = w ∨ y = 1) :
    ∃ z, joinExtent? x y = some z ∧ (z = w ∨ z = 1) := by
  by_cases h1 : x = 1
  · exact ⟨y, joinExtent?_eq_some.2 (by omega), hy⟩
  · exact ⟨x, joinExtent?_eq_some.2 (by omega), hx⟩

private theorem joinExtents?_cons_eq_some : joinExtents? (x :: xs) (y :: ys) = some zs ↔
    ∃ z rest, joinExtent? x y = some z ∧ joinExtents? xs ys = some rest ∧ zs = z :: rest := by
  rw [joinExtents?]
  cases hz : joinExtent? x y with
  | none => simp
  | some z => cases joinExtents? xs ys <;> simp [eq_comm]

/-- What two lists of extents are joined to is above both. -/
private theorem stretches_joinExtents? (h : joinExtents? xs ys = some zs) : Stretches xs zs ∧ Stretches ys zs := by
  induction xs generalizing ys zs with
  | nil =>
    obtain rfl := Option.some.inj h
    exact ⟨trivial, .refl _⟩
  | cons x xs ih =>
    cases ys with
    | nil =>
      obtain rfl := Option.some.inj h
      exact ⟨.refl _, trivial⟩
    | cons y ys =>
      obtain ⟨z, rest, hz, hrest, rfl⟩ := joinExtents?_cons_eq_some.1 h
      obtain ⟨hx, hy, -⟩ := joinExtent?_eq_some.1 hz
      obtain ⟨hxs, hys⟩ := ih hrest
      exact ⟨⟨hx, hxs⟩, hy, hys⟩

/-- Two lists below a third one are joined to one below it. -/
private theorem exists_joinExtents? (hx : Stretches xs ws) (hy : Stretches ys ws) :
    ∃ zs, joinExtents? xs ys = some zs ∧ Stretches zs ws := by
  induction xs generalizing ys ws with
  | nil => exact ⟨ys, rfl, hy⟩
  | cons x xs ih =>
    cases ys with
    | nil => exact ⟨x :: xs, rfl, hx⟩
    | cons y ys =>
      obtain ⟨w, ws, rfl, hxw, hxs⟩ := hx.exists_cons
      obtain ⟨hyw, hys⟩ := stretches_cons.1 hy
      obtain ⟨z, hz, hzw⟩ := exists_joinExtent? hxw hyw
      obtain ⟨rest, hrest, hws⟩ := ih hxs hys
      exact ⟨z :: rest, joinExtents?_cons_eq_some.2 ⟨z, rest, hz, hrest, rfl⟩, hzw, hws⟩

theorem length_joinExtents? (h : joinExtents? xs ys = some zs) : zs.length = max xs.length ys.length := by
  induction xs generalizing ys zs with
  | nil =>
    obtain rfl := Option.some.inj h
    simp
  | cons x xs ih =>
    cases ys with
    | nil =>
      obtain rfl := Option.some.inj h
      simp
    | cons y ys =>
      obtain ⟨z, rest, -, hrest, rfl⟩ := joinExtents?_cons_eq_some.1 h
      rw [List.length_cons, List.length_cons, List.length_cons, ih hrest, Nat.succ_max_succ]

/-! ### Joining shapes -/

theorem broadcast_eq_ok_iff :
    broadcast a b = .ok s ↔ joinExtents? a.toList.reverse b.toList.reverse = some s.toList.reverse := by
  unfold broadcast
  cases hjoin : joinExtents? a.toList.reverse b.toList.reverse with
  | none => simp
  | some extents =>
    simp only [Option.some.injEq]
    constructor
    · intro h
      rw [Dims.toList_ofList h, List.reverse_reverse]
    · rintro rfl
      rw [List.reverse_reverse, Dims.ofList_toList]

/-- The ranks of the two shapes leave room for what their extents are joined to, if they are. -/
theorem broadcast_cases (a b : Shape) :
    (∃ s, broadcast a b = .ok s) ∨
      joinExtents? a.toList.reverse b.toList.reverse = none ∧ broadcast a b = Result.reject (.broadcast a b) := by
  unfold broadcast
  cases hjoin : joinExtents? a.toList.reverse b.toList.reverse with
  | none => exact .inr ⟨rfl, rfl⟩
  | some extents =>
    have hlen := length_joinExtents? hjoin
    rw [List.length_reverse, List.length_reverse, Dims.length_toList, Dims.length_toList] at hlen
    have ha := a.rank_le
    have hb := b.rank_le
    exact .inl (Dims.exists_ofList (by rw [List.length_reverse]; omega))

theorem le_of_broadcast (h : broadcast a b = .ok s) : a ≤ s ∧ b ≤ s :=
  stretches_joinExtents? (broadcast_eq_ok_iff.1 h)

private theorem exists_broadcast_le (ha : a ≤ c) (hb : b ≤ c) : ∃ s, broadcast a b = .ok s ∧ s ≤ c := by
  obtain ⟨extents, hjoin, hle⟩ := exists_joinExtents? ha hb
  rcases broadcast_cases a b with ⟨s, hs⟩ | ⟨hnone, -⟩
  · obtain rfl := Option.some.inj (hjoin.symm.trans (broadcast_eq_ok_iff.1 hs))
    exact ⟨s, hs, hle⟩
  · simp [hjoin] at hnone

theorem exists_broadcast_iff : (∃ s, broadcast a b = .ok s) ↔ ∃ s, a ≤ s ∧ b ≤ s := by
  constructor
  · rintro ⟨s, h⟩
    exact ⟨s, le_of_broadcast h⟩
  · rintro ⟨s, ha, hb⟩
    obtain ⟨s', h, -⟩ := exists_broadcast_le ha hb
    exact ⟨s', h⟩

/-- Broadcasting succeeds with `s` exactly if the shapes above `s` are those above both. -/
theorem broadcast_eq_ok : broadcast a b = .ok s ↔ ∀ c, s ≤ c ↔ a ≤ c ∧ b ≤ c := by
  constructor
  · intro h c
    obtain ⟨ha, hb⟩ := le_of_broadcast h
    refine ⟨fun hs => ⟨ha.trans hs, hb.trans hs⟩, fun ⟨ha', hb'⟩ => ?_⟩
    obtain ⟨s', h', hle⟩ := exists_broadcast_le ha' hb'
    obtain rfl := Except.ok.inj (h.symm.trans h')
    exact hle
  · intro h
    obtain ⟨ha, hb⟩ := (h s).1 le_rfl
    obtain ⟨s', h', hle⟩ := exists_broadcast_le ha hb
    obtain rfl := le_antisymm hle ((h s').2 (le_of_broadcast h'))
    exact h'

theorem broadcast_eq_ok_iff_isLUB : broadcast a b = .ok s ↔ IsLUB {a, b} s := by
  rw [broadcast_eq_ok, isLUB_iff_le_iff]
  simp [upperBounds]

/-! ### Laws -/

theorem le_iff_broadcast : a ≤ c ↔ broadcast a c = .ok c := by
  rw [broadcast_eq_ok]
  exact ⟨fun h _ => ⟨fun hc => ⟨h.trans hc, hc⟩, And.right⟩, fun h => ((h c).1 le_rfl).1⟩

theorem broadcast_comm : broadcast a b = .ok s ↔ broadcast b a = .ok s := by
  simp only [broadcast_eq_ok, and_comm]

theorem broadcast_self (a : Shape) : broadcast a a = .ok a := le_iff_broadcast.1 le_rfl

theorem empty_broadcast (a : Shape) : broadcast Dims.empty a = .ok a := le_iff_broadcast.1 (empty_le a)

theorem broadcast_empty (a : Shape) : broadcast a Dims.empty = .ok a := broadcast_comm.1 (empty_broadcast a)

theorem canBroadcast_iff : canBroadcast a b = true ↔ ∃ s, broadcast a b = .ok s := by
  unfold canBroadcast
  cases broadcast a b <;> simp [Except.isOk, Except.toBool]

/-- What three shapes are joined to has above it what is above all three. -/
private theorem bind_broadcast_eq_ok :
    (do broadcast (← broadcast a b) c) = .ok s ↔ ∀ d, s ≤ d ↔ (a ≤ d ∧ b ≤ d) ∧ c ≤ d := by
  rw [Result.bind_eq_ok]
  constructor
  · rintro ⟨r, hr, hs⟩ d
    rw [broadcast_eq_ok.1 hs d, broadcast_eq_ok.1 hr d]
  · intro h
    obtain ⟨⟨ha, hb⟩, -⟩ := (h s).1 le_rfl
    obtain ⟨r, hr, -⟩ := exists_broadcast_le ha hb
    exact ⟨r, hr, broadcast_eq_ok.2 fun d => by rw [h d, broadcast_eq_ok.1 hr d]⟩

theorem broadcast_assoc :
    (do broadcast (← broadcast a b) c) = .ok s ↔ (do broadcast a (← broadcast b c)) = .ok s := by
  have hright : (do broadcast a (← broadcast b c)) = .ok s ↔ (do broadcast (← broadcast b c) a) = .ok s := by
    simp only [Result.bind_eq_ok, broadcast_comm]
  rw [hright, bind_broadcast_eq_ok, bind_broadcast_eq_ok]
  exact forall_congr' fun d => by rw [and_assoc, and_comm]

end Shape

/-! ### Expanding tensors -/

namespace Layout

private theorem exists_stretch?_iff {axes : List Axis} {targets : List Nat} (h : targets.length = axes.length) :
    (∃ entries, stretch? axes targets = some entries) ↔
      List.Forall₂ (fun x y => x = y ∨ x = 1) (axes.map Prod.fst) targets := by
  induction axes generalizing targets with
  | nil =>
    obtain rfl : targets = [] := by simpa using h
    exact iff_of_true ⟨[], rfl⟩ .nil
  | cons a axes ih =>
    cases targets with
    | nil => simp at h
    | cons target targets =>
      rw [List.map_cons, List.forall₂_cons, ← ih (by simpa using h)]
      constructor
      · rintro ⟨entries, hentries⟩
        obtain ⟨s, rest, hrest, -, hs⟩ := stretch?_cons_eq_some.1 hentries
        exact ⟨by omega, rest, hrest⟩
      · rintro ⟨ha, rest, hrest⟩
        by_cases ht : a.1 = target
        · exact ⟨_, stretch?_cons_eq_some.2 ⟨a.2, rest, hrest, rfl, .inl ⟨ht, rfl⟩⟩⟩
        · exact ⟨_, stretch?_cons_eq_some.2 ⟨0, rest, hrest, rfl, .inr ⟨ht, ha.resolve_left ht, rfl⟩⟩⟩

private theorem exists_expand_iff {l : Layout} {target : Shape} :
    (∃ l', l.expand target = .ok l') ↔ l.shape ≤ target := by
  have hlen : l.rank ≤ target.rank → (target.toList.drop (target.rank - l.rank)).length = l.axes.length := by
    intro hle
    rw [List.length_drop, Dims.length_toList, length_axes]
    omega
  rw [Shape.le_iff_forall₂, ← map_fst_axes]
  constructor
  · rintro ⟨l', h⟩
    obtain ⟨hle, entries, hentries, -⟩ := expand_eq_ok.1 h
    exact ⟨hle, (exists_stretch?_iff (hlen hle)).1 ⟨entries, hentries⟩⟩
  · rintro ⟨hle, h⟩
    obtain ⟨entries, hentries⟩ := (exists_stretch?_iff (hlen hle)).2 h
    exact ⟨_, expand_eq_ok.2 ⟨hle, entries, hentries, rfl⟩⟩

end Layout

/-- The shapes that a tensor expands to are those above its own. -/
theorem Tensor.exists_expand_iff {t : Tensor} {target : Shape} :
    (∃ v, t.expand target.toList = .ok v) ↔ t.shape ≤ target := by
  unfold shape
  rw [← Layout.exists_expand_iff]
  constructor
  · rintro ⟨v, h⟩
    obtain ⟨target', l, htarget, hl, -⟩ := expand_eq_ok.1 h
    obtain rfl := Except.ok.inj ((Dims.ofList_toList target).symm.trans htarget)
    exact ⟨l, hl⟩
  · rintro ⟨l, hl⟩
    exact ⟨_, expand_eq_ok.2 ⟨target, l, Dims.ofList_toList target, hl, rfl⟩⟩

/-- Expanding and broadcasting follow the same order of shapes: broadcasting succeeds where two shapes have an upper
bound, with the least one, and otherwise reports both. -/
theorem Shape.broadcast_isLUB (a b c : Shape) :
    (∀ t : Tensor, (∃ v, t.expand c.toList = .ok v) ↔ t.shape ≤ c) ∧
    (a ≤ c ↔ broadcast a c = .ok c) ∧
    (∀ s, broadcast a b = .ok s ↔ IsLUB {a, b} s) ∧
    (canBroadcast a b = true ↔ ∃ s, broadcast a b = .ok s) ∧
    ((∃ s, broadcast a b = .ok s) ↔ ∃ s, a ≤ s ∧ b ≤ s) ∧
    ((¬ ∃ s, a ≤ s ∧ b ≤ s) → broadcast a b = Result.reject (.broadcast a b)) ∧
    (∀ s, broadcast a b = .ok s ↔ broadcast b a = .ok s) ∧
    broadcast a a = .ok a ∧
    (broadcast Dims.empty a = .ok a ∧ broadcast a Dims.empty = .ok a) ∧
    ∀ s, (do broadcast (← broadcast a b) c) = .ok s ↔ (do broadcast a (← broadcast b c)) = .ok s := by
  refine ⟨fun _ => Tensor.exists_expand_iff, le_iff_broadcast, fun _ => broadcast_eq_ok_iff_isLUB, canBroadcast_iff,
    exists_broadcast_iff, fun h => ?_, fun _ => broadcast_comm, broadcast_self a,
    ⟨empty_broadcast a, broadcast_empty a⟩, fun _ => broadcast_assoc⟩
  rcases broadcast_cases a b with hs | ⟨-, hreject⟩
  · exact absurd (exists_broadcast_iff.1 hs) h
  · exact hreject

/-- An extent of one stretches to zero as well. -/
example :
    Shape.broadcast (Dims.build 2 (by decide) fun i => [0, 1].getD i 0)
        (Dims.build 3 (by decide) fun i => [4, 1, 5].getD i 0) =
      .ok (Dims.build 3 (by decide) fun i => [4, 0, 5].getD i 0) := by
  rfl

end StridedTensor
