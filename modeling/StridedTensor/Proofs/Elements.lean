import StridedTensor.Kernel.Operand
import StridedTensor.Proofs.Access
import StridedTensor.Proofs.Density

/-!
# Elements of float tensors

The floats that a block of bytes holds from some place on, one after the other (`Bytes.floats`). They are what the
kernels load (`load_slice`), what reading a contiguous tensor yields in row-major order (`element?_eq`), and, after
elements were stored there, those elements (`floats_write_store`).
-/

namespace StridedTensor

namespace Bytes

def floatAt (t : FloatType) (block : Bytes) (start : Nat) : Binary t.format :=
  Binary.ofNat t.format (toNat (block.slice start t.element.size))

def floats (t : FloatType) (block : Bytes) (start count : Nat) : Array (Binary t.format) :=
  ((List.range count).map fun k => block.floatAt t (start + t.element.size * k)).toArray

variable {t : FloatType} {block : Bytes} {start count : Nat}

@[simp] theorem size_floats : (block.floats t start count).size = count := by simp [floats]

theorem getElem?_floats (k : Nat) :
    (block.floats t start count)[k]? =
      if k < count then some (block.floatAt t (start + t.element.size * k)) else none := by
  unfold floats
  by_cases h : k < count <;> simp [h]

private theorem getElem?_slice (i : Nat) :
    (block.slice start count)[i]? = if i < count then some (block.getD (start + i) 0) else none := by
  unfold slice
  by_cases h : i < count <;> simp [h]

private theorem drop_take_slice {skip n : Nat} (h : skip + n ≤ count) :
    ((block.slice start count).drop skip).take n = block.slice (start + skip) n := by
  apply List.ext_getElem?
  intro i
  rw [List.getElem?_take, List.getElem?_drop, getElem?_slice, getElem?_slice]
  by_cases hi : i < n
  · rw [if_pos hi, if_pos hi, if_pos (by omega), Nat.add_assoc]
  · rw [if_neg hi, if_neg hi]

end Bytes

namespace Kernel

variable {t : FloatType} {block : Bytes} {start count : Nat}

/-- Loading the bytes of whole elements yields the elements. -/
theorem load_slice : load t (block.slice start (t.element.size * count)) = block.floats t start count := by
  unfold load Bytes.words
  rw [Bytes.length_slice, Nat.mul_div_cancel_left _ t.element.size_pos]
  congr 1
  apply List.ext_getElem?
  intro k
  by_cases hk : k < count
  · have hle : t.element.size * k + t.element.size ≤ t.element.size * count := by
      rw [← Nat.mul_succ]
      exact Nat.mul_le_mul_left _ hk
    simp only [List.getElem?_map, getElem?_chunks _ _ _ _ hk, List.getElem?_range hk, Option.map_some]
    rw [Nat.mul_comm k, Bytes.drop_take_slice hle]
    rfl
  · simp [hk]

end Kernel

namespace Bytes

/-! ### Stored elements -/

theorem drop_take_flatMap {α β : Type} {f : α → List β} {n : Nat} (hf : ∀ x, (f x).length = n) (xs : List α)
    (k : Nat) : ((xs.flatMap f).drop (n * k)).take n = (xs[k]?.map f).getD [] := by
  induction xs generalizing k with
  | nil => simp
  | cons x xs ih =>
    cases k with
    | zero => simp [hf]
    | succ k =>
      have e : n * (k + 1) = (f x).length + n * k := by rw [hf, Nat.mul_succ, Nat.add_comm]
      rw [List.flatMap_cons, e, List.drop_length_add_append, ih, List.getElem?_cons_succ]

theorem slice_write {block : Bytes} {bytes : List UInt8} {start skip n : Nat}
    (hle : start + bytes.length ≤ block.size) (h : skip + n ≤ bytes.length) :
    (block.write start bytes).slice (start + skip) n = (bytes.drop skip).take n := by
  apply List.ext_getElem?
  intro i
  rw [getElem?_slice, List.getElem?_take, List.getElem?_drop]
  by_cases hi : i < n
  · have hw := getElem?_write block start bytes (start + skip + i)
    rw [if_pos (by omega), show start + skip + i - start = skip + i by omega,
      List.getElem?_eq_getElem (show skip + i < bytes.length by omega)] at hw
    rw [if_pos hi, if_pos hi, Array.getD_eq_getD_getElem?, hw, List.getElem?_eq_getElem (by omega)]
    rfl
  · rw [if_neg hi, if_neg hi]

theorem toNat_ofNat (count n : Nat) : toNat (ofNat count n) = n % 256 ^ count := by
  induction count generalizing n with
  | zero => simp [ofNat, toNat, Nat.mod_one]
  | succ k ih =>
    rw [ofNat, toNat, ih, Nat.pow_succ, Nat.mul_comm (256 ^ k) 256, Nat.mod_mul]
    simp

private theorem toNat_lt {t : FloatType} (x : Binary t.format) : x.toNat < 256 ^ t.element.size := by
  have h := x.bits.isLt
  cases t <;> exact h

theorem length_store {t : ElementType} (patterns : List Nat) :
    (Kernel.store t patterns).length = t.size * patterns.length := by
  unfold Kernel.store
  induction patterns with
  | nil => simp
  | cons p ps ih =>
    rw [List.flatMap_cons, List.length_append, ih, length_ofNat, List.length_cons, Nat.mul_succ, Nat.add_comm]

theorem floats_write_store {t : FloatType} {block : Bytes} {start : Nat} {xs : Array (Binary t.format)}
    (hle : start + t.element.size * xs.size ≤ block.size) :
    (block.write start (Kernel.store t.element (xs.toList.map Binary.toNat))).floats t start xs.size = xs := by
  have hlen : (Kernel.store t.element (xs.toList.map Binary.toNat)).length = t.element.size * xs.size := by
    rw [length_store]
    simp
  apply Array.ext_getElem?
  intro k
  rw [getElem?_floats]
  by_cases hk : k < xs.size
  · -- the bytes of element `k` follow those of the `k` elements before it
    have hblock : t.element.size * k + t.element.size ≤ t.element.size * xs.size := by
      rw [← Nat.mul_succ]
      exact Nat.mul_le_mul_left _ hk
    rw [if_pos hk, floatAt, slice_write (by omega) (by omega), Kernel.store,
      drop_take_flatMap (fun x => length_ofNat _ x), List.getElem?_map, Array.getElem?_toList,
      Array.getElem?_eq_getElem hk]
    simp only [Option.map_some, Option.getD_some, toNat_ofNat, Nat.mod_eq_of_lt (toNat_lt _)]
    simp [Binary.ofNat, Binary.toNat]
  · rw [if_neg hk, Array.getElem?_eq_none (by omega)]

end Bytes

/-! ### Reading elements -/

/-- The pattern fills the bytes of an element, but not that of a boolean. -/
theorem ElementType.two_pow_width {t : ElementType} (ht : t ≠ .bool) : 2 ^ t.width = 256 ^ t.size := by
  revert ht
  cases t <;> decide

private theorem ofNat_toNat_decode {t : FloatType} {type : ElementType} (h : type = t.element) (bytes : List UInt8) :
    Binary.ofNat t.format (type.decode bytes).toNat = Binary.ofNat t.format (Bytes.toNat bytes) := by
  subst h
  have hbool : t.element ≠ .bool := by cases t <;> decide
  unfold ElementType.decode Binary.ofNat
  congr 1
  apply BitVec.eq_of_toNat_eq
  simp only [if_neg hbool, BitVec.toNat_ofNat, FloatType.width_element, Nat.mod_mod]

namespace Context

variable {c : Context} {t : FloatType} {x : Tensor}

/-- The element at position `k` in row-major order of a tensor of floats. -/
def element? (c : Context) (t : FloatType) (x : Tensor) (k : Nat) : Option (Binary t.format) :=
  match c.toList x t.element with
  | .ok values => values[k]?.map fun v => Binary.ofNat t.format v.toNat
  | .error _ => none

/-- The element at `index` of a tensor of floats. -/
def cell? (c : Context) (t : FloatType) (x : Tensor) (index : List Nat) : Option (Binary t.format) :=
  match c.get x index with
  | .ok v => some (Binary.ofNat t.format v.pattern)
  | .error _ => none

/-- The floats of a tensor without gaps. -/
def floats (c : Context) (t : FloatType) (x : Tensor) : Array (Binary t.format) :=
  (c.contents x).floats t x.offset x.shape.toList.prod

/-- A tensor that a kernel of type `t` can read and write. -/
structure Ready (c : Context) (t : FloatType) (x : Tensor) : Prop where
  valid : c.validate x = .ok ()
  contiguous : x.isContiguous = .ok true
  type : x.type = t.element

@[simp] theorem size_floats : (c.floats t x).size = x.shape.toList.prod := Bytes.size_floats

/-- Reading all elements in row-major order yields the floats of the span. -/
theorem element?_eq (h : c.Ready t x) (k : Nat) : c.element? t x k = (c.floats t x)[k]? := by
  obtain ⟨s, hs⟩ := (hosts_of_validate h.valid).span
  unfold element? floats
  rw [(hosts_of_validate h.valid).toList (Tensor.offsets_of_span hs) h.type, Bytes.getElem?_floats]
  by_cases hk : k < x.shape.toList.prod
  · simp only [List.map_map, List.getElem?_map, List.getElem?_range hk, Option.map_some, if_pos hk,
      Function.comp_apply, ofNat_toNat_decode rfl, Tensor.place_of_isContiguous h.contiguous hk, h.type]
    rfl
  · simp [hk]

/-- Reading one element by its index yields the float at its position in row-major order. -/
theorem cell?_eq (h : c.Ready t x) {index : List Nat} (hi : List.Forall₂ (· < ·) index x.shape.toList) :
    c.cell? t x index = (c.floats t x)[Shape.position x.shape.toList index]? := by
  unfold cell? floats
  rw [(hosts_of_validate h.valid).get hi, Bytes.getElem?_floats, if_pos (Shape.position_lt hi)]
  simp only [Scalar.pattern, ofNat_toNat_decode h.type, Tensor.place_eq_position h.contiguous hi, h.type]
  rfl

end Context

end StridedTensor
