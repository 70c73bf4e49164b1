import StridedTensor.Error

/-!
# Editing shapes and strides

Insertion and removal act on the list that a `Dims` shows as they do on any list (`toList_insert`,
`toList_erase`). A full list is reported before an index that does not exist.
-/

namespace StridedTensor.Dims

variable {kind : DimsKind}

def ofList (xs : List Nat) : Result (Dims kind) :=
  if h : xs.length ≤ maxRank then .ok (build xs.length h fun i => xs.getD i 0)
  else Result.reject (.rank xs.length)

/-- Puts `value` before the entry at `index`, or after the last one. -/
def insert (d : Dims kind) (index value : Nat) : Result (Dims kind) :=
  if h : d.rank + 1 ≤ maxRank then
    if d.rank < index then Result.reject (.dim index (d.rank + 1))
    else
      .ok (build (d.rank + 1) h fun i =>
        if i < index then d.entry i else if i = index then value else d.entry (i - 1))
  else Result.reject (.rank (d.rank + 1))

def push (d : Dims kind) (value : Nat) : Result (Dims kind) := d.insert d.rank value

/-- The list without the entry at `index`, which has to exist. -/
def erase (d : Dims kind) (index : Nat) : Dims kind :=
  build (d.rank - 1) (Nat.le_trans (Nat.sub_le _ _) d.rank_le) fun i =>
    if i < index then d.entry i else d.entry (i + 1)

def remove (d : Dims kind) (index : Nat) : Result (Nat × Dims kind) :=
  if index < d.rank then .ok (d.entry index, d.erase index)
  else Result.halt (.removal index d.rank)

def set (d : Dims kind) (index value : Nat) : Dims kind :=
  build d.rank d.rank_le fun i => if i = index then value else d.entry i

def swap (d : Dims kind) (i j : Nat) : Dims kind := (d.set i (d.entry j)).set j (d.entry i)

def gather (d : Dims kind) (p : Nat → Nat) : Dims kind := build d.rank d.rank_le fun i => d.entry (p i)

/-! ### Permutations -/

/-- Raises the flag of `dim`, unless there is no such dimension or its flag is up. -/
def flag? (rank : Nat) (seen : Vector Bool maxRank) (dim : Nat) : Option (Vector Bool maxRank) :=
  if dim < rank ∧ seen[dim]? = some false then some (seen.setIfInBounds dim true) else none

/-- Whether the list names each of `rank` dimensions once. Its entries are gone through with a flag for each
dimension, up to the first that cannot be raised. -/
def isPermutation (rank : Nat) (permutation : List Nat) : Bool :=
  permutation.length == rank && (permutation.foldlM (flag? rank) (Vector.replicate maxRank false)).isSome

/-! ### The list view -/

@[simp] theorem rank_erase (d : Dims kind) (index : Nat) : (d.erase index).rank = d.rank - 1 := rfl

@[simp] theorem rank_set (d : Dims kind) (i v : Nat) : (d.set i v).rank = d.rank := rfl

@[simp] theorem rank_swap (d : Dims kind) (i j : Nat) : (d.swap i j).rank = d.rank := rfl

@[simp] theorem rank_gather (d : Dims kind) (p : Nat → Nat) : (d.gather p).rank = d.rank := rfl

theorem toList_ofList {xs : List Nat} {d : Dims kind} (h : ofList xs = .ok d) : d.toList = xs := by
  unfold ofList at h
  split at h
  · cases h
    apply List.ext_getElem
    · simp
    · intro i hi hx
      simp [hx]
  · simp [Result.reject] at h

theorem exists_ofList {xs : List Nat} (h : xs.length ≤ maxRank) : ∃ d : Dims kind, ofList xs = .ok d := by
  unfold ofList
  rw [dif_pos h]
  exact ⟨_, rfl⟩

theorem ofList_toList (d : Dims kind) : ofList d.toList = .ok d := by
  have h : d.toList.length ≤ maxRank := by simpa using d.rank_le
  have key : (ofList d.toList : Result (Dims kind)) =
      .ok (build d.toList.length h fun i => d.toList.getD i 0) := by
    unfold ofList; rw [dif_pos h]
  rw [key, toList_inj.1 (toList_ofList key)]

theorem rank_insert {d e : Dims kind} {index value : Nat} (h : d.insert index value = .ok e) :
    e.rank = d.rank + 1 := by
  unfold insert at h
  split at h
  · split at h
    · simp [Result.reject] at h
    · cases h; rfl
  · simp [Result.reject] at h

theorem exists_insert_iff (d : Dims kind) (index value : Nat) :
    (∃ e, d.insert index value = .ok e) ↔ index ≤ d.rank ∧ d.rank < maxRank := by
  unfold insert
  by_cases hfull : d.rank + 1 ≤ maxRank
  · rw [dif_pos hfull]
    by_cases hindex : d.rank < index
    · rw [if_pos hindex]
      exact iff_of_false (by simp [Result.reject]) (by omega)
    · rw [if_neg hindex]
      exact iff_of_true ⟨_, rfl⟩ ⟨by omega, hfull⟩
  · rw [dif_neg hfull]
    exact iff_of_false (by simp [Result.reject]) (by omega)

theorem toList_insert {d e : Dims kind} {index value : Nat} (h : d.insert index value = .ok e) :
    e.toList = d.toList.insertIdx index value := by
  unfold insert at h
  split at h
  · split at h
    · simp [Result.reject] at h
    · rename_i hi
      cases h
      apply List.ext_getElem?
      intro i
      rw [List.getElem?_insertIdx]
      simp only [toList_build, List.getElem?_map, length_toList, getElem?_toList]
      grind
  · simp [Result.reject] at h

theorem toList_erase {d : Dims kind} {index : Nat} (h : index < d.rank) :
    (d.erase index).toList = d.toList.eraseIdx index := by
  apply List.ext_getElem?
  intro i
  rw [List.getElem?_eraseIdx]
  simp only [erase, toList_build, List.getElem?_map, getElem?_toList]
  grind

theorem toList_set (d : Dims kind) (index value : Nat) :
    (d.set index value).toList = d.toList.set index value := by
  apply List.ext_getElem?
  intro i
  simp only [set, toList_build, List.getElem?_map, List.getElem?_set, getElem?_toList, length_toList]
  grind

end StridedTensor.Dims
