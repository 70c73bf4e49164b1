/-!
# Shapes and strides

A shape lists the extent of each dimension of a tensor, the strides list the distance in bytes between
neighbours along each dimension. Both are bounded lists: eight slots, of which the first `rank` are in use. The
slots past the rank hold zero, so two of them are equal exactly when the lists that they show are equal
(`Dims.toList_inj`).
-/

namespace StridedTensor

def maxRank : Nat := 8

inductive DimsKind
  | shape | strides
  deriving DecidableEq, Repr

def DimsKind.name : DimsKind → String
  | shape => "Shape"
  | strides => "Strides"

structure Dims (kind : DimsKind) where
  rank : Nat
  slots : Vector Nat maxRank
  rank_le : rank ≤ maxRank
  tail_zero : ∀ i, (h : i < maxRank) → rank ≤ i → slots[i] = 0
  deriving DecidableEq

/-- Extents, one for each dimension. -/
abbrev Shape := Dims .shape

/-- Byte strides, one for each dimension. -/
abbrev Strides := Dims .strides

def bracketed (xs : List Nat) : String := "[" ++ ", ".intercalate (xs.map toString) ++ "]"

namespace Dims

variable {kind : DimsKind}

def entry (d : Dims kind) (i : Nat) : Nat := d.slots[i]?.getD 0

def toList (d : Dims kind) : List Nat := (List.range d.rank).map d.entry

def build (rank : Nat) (h : rank ≤ maxRank) (entry : Nat → Nat) : Dims kind where
  rank := rank
  slots := Vector.ofFn fun i => if i.val < rank then entry i.val else 0
  rank_le := h
  tail_zero i hi hr := by simp [Nat.not_lt.2 hr]

def empty : Dims kind := build 0 (Nat.zero_le _) fun _ => 0

def text (d : Dims kind) : String := bracketed d.toList

def debugText (d : Dims kind) : String := kind.name ++ "(" ++ d.text ++ ")"

/-! ### The list view -/

@[simp] theorem length_toList (d : Dims kind) : d.toList.length = d.rank := by simp [toList]

@[simp] theorem rank_build (n : Nat) (h : n ≤ maxRank) (f : Nat → Nat) :
    (build n h f : Dims kind).rank = n := rfl

theorem entry_build (n : Nat) (h : n ≤ maxRank) (f : Nat → Nat) (i : Nat) :
    (build n h f : Dims kind).entry i = if i < n then f i else 0 := by
  unfold entry build
  by_cases hi : i < maxRank
  · simp [hi]
  · have : ¬ i < n := by omega
    simp [hi, this]

@[simp] theorem toList_build (n : Nat) (h : n ≤ maxRank) (f : Nat → Nat) :
    (build n h f : Dims kind).toList = (List.range n).map f := by
  unfold toList
  apply List.map_congr_left
  intro i hi
  rw [entry_build, if_pos (by simpa using hi)]

theorem entry_eq_zero {d : Dims kind} {i : Nat} (h : d.rank ≤ i) : d.entry i = 0 := by
  unfold entry
  by_cases hi : i < maxRank
  · simp [hi, d.tail_zero i hi h]
  · simp [hi]

theorem getElem?_toList (d : Dims kind) (i : Nat) :
    d.toList[i]? = if i < d.rank then some (d.entry i) else none := by
  unfold toList
  by_cases h : i < d.rank <;> simp [h]

theorem entry_eq_getD (d : Dims kind) (i : Nat) : d.entry i = d.toList.getD i 0 := by
  rw [List.getD_eq_getElem?_getD, getElem?_toList]
  by_cases h : i < d.rank
  · simp [h]
  · simp [h, entry_eq_zero (Nat.le_of_not_lt h)]

theorem toList_inj {d e : Dims kind} : d.toList = e.toList ↔ d = e := by
  constructor
  · intro h
    have hr : d.rank = e.rank := by simpa using congrArg List.length h
    have hs : d.slots = e.slots := by
      apply Vector.ext
      intro i hi
      have key : d.entry i = e.entry i := by rw [entry_eq_getD, entry_eq_getD, h]
      simpa [entry, hi] using key
    cases d; cases e; simp_all
  · rintro rfl; rfl

end Dims

end StridedTensor
