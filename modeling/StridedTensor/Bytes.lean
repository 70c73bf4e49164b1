/-!
# Bytes

Blocks of memory and the numbers stored in them, least significant byte first. Writing changes the bytes that it
covers and no others (`getElem?_write`).
-/

namespace StridedTensor

abbrev Bytes := Array UInt8

/-- The first `count` pieces of `size` elements each. -/
def chunks {α : Type} (size : Nat) : (count : Nat) → List α → List (List α)
  | 0, _ => []
  | count + 1, xs => xs.take size :: chunks size count (xs.drop size)

@[simp] theorem length_chunks {α : Type} (size count : Nat) (xs : List α) :
    (chunks size count xs).length = count := by
  induction count generalizing xs with
  | zero => rfl
  | succ k ih => simp [chunks, ih]

/-- Piece `i` begins after the `i` pieces before it. -/
theorem getElem?_chunks {α : Type} (size count i : Nat) (xs : List α) (h : i < count) :
    (chunks size count xs)[i]? = some ((xs.drop (i * size)).take size) := by
  induction count generalizing xs i with
  | zero => omega
  | succ k ih =>
    cases i with
    | zero => simp [chunks]
    | succ j =>
      rw [chunks, List.getElem?_cons_succ, ih j (xs.drop size) (by omega), List.drop_drop, Nat.succ_mul,
        Nat.add_comm size]

namespace Bytes

def read? (block : Bytes) (start count : Nat) : Option (List UInt8) :=
  if start + count ≤ block.size then some ((List.range count).map fun i => block.getD (start + i) 0) else none

/-- The block with `bytes` from `start` on; bytes beyond its end are lost. -/
def write (block : Bytes) (start : Nat) : List UInt8 → Bytes
  | [] => block
  | b :: bs => write (block.setIfInBounds start b) (start + 1) bs

def toNat : List UInt8 → Nat
  | [] => 0
  | b :: bs => b.toNat + 256 * toNat bs

def ofNat : (count : Nat) → Nat → List UInt8
  | 0, _ => []
  | count + 1, n => UInt8.ofNat (n % 256) :: ofNat count (n / 256)

/-- The numbers of `size` bytes each that the bytes stand for; a rest that is too short is left out. -/
def words (size : Nat) (bytes : List UInt8) : List Nat :=
  (chunks size (bytes.length / size) bytes).map toNat

/-! ### Writing and reading -/

@[simp] theorem size_write (block : Bytes) (start : Nat) (bytes : List UInt8) :
    (write block start bytes).size = block.size := by
  induction bytes generalizing block start with
  | nil => rfl
  | cons b bs ih => simp [write, ih]

theorem getElem?_write (block : Bytes) (start : Nat) (bytes : List UInt8) (i : Nat) :
    (write block start bytes)[i]? =
      if start ≤ i ∧ i < start + bytes.length ∧ i < block.size then bytes[i - start]? else block[i]? := by
  induction bytes generalizing block start with
  | nil =>
    rw [if_neg (by simp only [List.length_nil]; omega), write]
  | cons b bs ih =>
    rw [write, ih, Array.getElem?_setIfInBounds]
    simp only [Array.size_setIfInBounds, List.length_cons]
    by_cases h : start = i
    · subst h
      rw [if_neg (by omega)]
      by_cases hb : start < block.size <;> simp [hb]
    · by_cases h1 : start + 1 ≤ i ∧ i < start + 1 + bs.length ∧ i < block.size
      · have h2 : start ≤ i ∧ i < start + (bs.length + 1) ∧ i < block.size := by omega
        rw [if_pos h1, if_pos h2]
        have : i - start = (i - (start + 1)) + 1 := by omega
        rw [this, List.getElem?_cons_succ]
      · have h2 : ¬ (start ≤ i ∧ i < start + (bs.length + 1) ∧ i < block.size) := by omega
        rw [if_neg h1, if_neg h2, if_neg h]

@[simp] theorem length_ofNat (count n : Nat) : (ofNat count n).length = count := by
  induction count generalizing n with
  | zero => rfl
  | succ k ih => simp [ofNat, ih]

end Bytes

end StridedTensor
