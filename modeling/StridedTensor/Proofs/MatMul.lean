import Mathlib.Data.List.Nodup
import Mathlib.Data.List.ProdSigma
import StridedTensor.Proofs.Elementwise

/-!
# Matrix multiplication

Every cell of the output is the one that the matrices before the call determine, even if the output shares bytes
with a factor or is one of them, and no index that the loops compute is out of range (`gemm_entries`). The factors
are read in full beforehand, and each cell of the output is visited once, so that its old value is still there.
-/

namespace StridedTensor

namespace Kernel

/-- The sum of the products of the first `k` pairs, from left to right, in the accumulator format. -/
def sumOfProducts (t : FloatType) (k : Nat) (f g : Nat → Binary t.format) : Binary t.accumulator :=
  (List.range k).foldl (fun sum x => sum.add ((t.widen (f x)).mul (t.widen (g x)))) (Binary.zero false)

/-- What a cell is to hold, given the scaled product and what the cell holds. -/
def gemmCell (t : FloatType) (alpha : Binary t.accumulator) (beta : Option (Binary t.accumulator))
    (sum : Binary t.accumulator) (old : Binary t.format) : Binary t.format :=
  match beta with
  | some beta => t.narrow ((alpha.mul sum).add (beta.mul (t.widen old)))
  | none => t.narrow (alpha.mul sum)

variable {t : FloatType} {a b z : Array (Binary t.format)} {e : GemmExtents} {A B C : Nat → Nat → Binary t.format}

private theorem dot_eq {i j : Nat} (ha : ∀ x < e.k, a[i * e.k + x]? = some (A i x))
    (hb : ∀ x < e.k, b[x * e.n + j]? = some (B x j)) :
    dot t a b e i j = .ok (sumOfProducts t e.k (A i) fun x => B x j) := by
  apply Result.foldlM_eq_ok
  intro x hx sum
  have hlt := List.mem_range.1 hx
  simp only [Operand.get, ha x hlt, hb x hlt]
  rfl

/-! ### The cells of a matrix -/

private theorem position_pair (m n i j : Nat) : Shape.position [m, n] [i, j] = i * n + j := by simp [Shape.position]

private theorem pair_below {m n i j : Nat} : List.Forall₂ (· < ·) [i, j] [m, n] ↔ i < m ∧ j < n := by simp

/-- The cells in the order in which they are computed, row by row. -/
def cells (m n : Nat) : List (Nat × Nat) := List.range m ×ˢ List.range n

private theorem mem_cells {m n : Nat} {p : Nat × Nat} : p ∈ cells m n ↔ p.1 < m ∧ p.2 < n := by
  unfold cells
  rw [List.mem_product, List.mem_range, List.mem_range]

private theorem nodup_cells (m n : Nat) : ((cells m n).map fun p => p.1 * n + p.2).Nodup := by
  refine List.Nodup.map_on ?_ (List.Nodup.product List.nodup_range List.nodup_range)
  rintro ⟨i, j⟩ hp ⟨i', j'⟩ hp' heq
  have h := Shape.indexAt_position (pair_below.2 (mem_cells.1 hp))
  have h' := Shape.indexAt_position (pair_below.2 (mem_cells.1 hp'))
  rw [position_pair] at h h'
  rw [show i * n + j = i' * n + j' from heq, h'] at h
  simpa [eq_comm] using h

private theorem cell_lt {m n i j : Nat} (hi : i < m) (hj : j < n) : i * n + j < m * n := by
  have h := Shape.position_lt (pair_below.2 ⟨hi, hj⟩)
  rw [position_pair] at h
  simpa using h

/-- The loops find every element they ask for, and leave in each cell what the matrices before them determine. -/
private theorem gemmCells_eq (alpha : Binary t.accumulator) (beta : Option (Binary t.accumulator))
    (ha : ∀ i < e.m, ∀ x < e.k, a[i * e.k + x]? = some (A i x))
    (hb : ∀ x < e.k, ∀ j < e.n, b[x * e.n + j]? = some (B x j))
    (hc : ∀ i < e.m, ∀ j < e.n, z[i * e.n + j]? = some (C i j)) (hsize : z.size = e.m * e.n) :
    ∃ zs, gemmCells t alpha a b beta e z = .ok zs ∧ zs.size = z.size ∧
      ∀ i < e.m, ∀ j < e.n, zs[i * e.n + j]? =
        some (gemmCell t alpha beta (sumOfProducts t e.k (A i) fun x => B x j) (C i j)) := by
  obtain ⟨zs, hzs, hzsize, hmem, -⟩ := foldlM_put (cells e.m e.n) (fun p => p.1 * e.n + p.2)
    (f := fun ys p => do
      let product := alpha.mul (← dot t a b e p.1 p.2)
      let value ← match beta with
        | some beta => (product.add <| beta.mul <| t.widen ·) <$> Operand.output.get ys (p.1 * e.n + p.2)
        | none => pure product
      return t.narrow value)
    (fun p => some (gemmCell t alpha beta (sumOfProducts t e.k (A p.1) fun x => B x p.2) (C p.1 p.2))) z
    (nodup_cells e.m e.n)
    (fun p hp => by
      obtain ⟨hi, hj⟩ := mem_cells.1 hp
      rw [hsize]
      exact cell_lt hi hj)
    (fun p hp => by
      -- a cell is computed from the factors, which no write changes, and from what it held itself
      obtain ⟨hi, hj⟩ := mem_cells.1 hp
      refine ⟨_, rfl, fun ys _ hy => ?_⟩
      rw [hc _ hi _ hj] at hy
      simp only [dot_eq (ha _ hi) fun x hx => hb x hx _ hj, Result.ok_bind, gemmCell]
      cases beta with
      | none => rfl
      | some beta =>
        simp only [Operand.get, hy]
        rfl)
  refine ⟨zs, ?_, hzsize, fun i hi j hj => hmem (i, j) (mem_cells.2 ⟨hi, hj⟩)⟩
  rw [← hzs]
  show (cells e.m e.n).foldlM _ z = _
  congr 1
  funext ys p
  cases beta <;> simp [bind_assoc]

/-! ### Preconditions -/

theorem checkGemm_eq_ok {x y z : Tensor} (h : checkGemm x y z = .ok (t, e)) :
    (x.isContiguous = .ok true ∧ y.isContiguous = .ok true ∧ z.isContiguous = .ok true) ∧
      (x.type = t.element ∧ y.type = t.element ∧ z.type = t.element) ∧
      x.shape.toList = [e.m, e.k] ∧ y.shape.toList = [e.k, e.n] ∧ z.shape.toList = [e.m, e.n] := by
  unfold checkGemm at h
  simp only [Result.bind_eq_ok] at h
  obtain ⟨_, hx, _, hy, _, hz, t', ht, _, hxy, _, hxz, h⟩ := h
  split at h
  · rename_i m k k' n hsx hsy
    by_cases hk : k = k'
    · subst hk
      rw [if_neg (by simp), Result.bind_eq_ok] at h
      obtain ⟨expected, he, h⟩ := h
      by_cases hs : z.shape = expected
      · rw [if_neg (by simpa using hs), Result.pure_eq_ok, Prod.mk.injEq] at h
        obtain ⟨rfl, rfl⟩ := h
        have htx := checkFloat_eq_ok.1 ht
        exact ⟨⟨(checkOperand_eq_ok.1 hx).2, (checkOperand_eq_ok.1 hy).2, (checkOperand_eq_ok.1 hz).2⟩,
          ⟨htx, (checkType_eq_ok.1 hxy).symm.trans htx, (checkType_eq_ok.1 hxz).symm.trans htx⟩,
          hsx, hsy, by rw [hs]; exact Dims.toList_ofList he⟩
      · simp [hs] at h
    · simp [hk] at h
  · simp at h

private theorem checkGemm_avoids {x y z : Tensor} {f : Fault} (hx : x.isContiguous.Avoids f)
    (hy : y.isContiguous.Avoids f)
    (hz : z.isContiguous.Avoids f) : (checkGemm x y z).Avoids f := by
  unfold checkGemm
  refine .bind (checkOperand_avoids hx) fun _ _ => .bind (checkOperand_avoids hy) fun _ _ =>
    .bind (checkOperand_avoids hz) fun _ _ => .bind (checkFloat_avoids x) fun _ _ =>
    .bind (checkType_avoids x y) fun _ _ => .bind (checkType_avoids x z) fun _ _ => ?_
  split
  · split
    · exact .reject _
    · refine .bind ?_ fun expected _ => ?_
      · unfold Dims.ofList
        split
        · exact .ok _
        · exact .reject _
      · split
        · exact .reject _
        · exact .ok _
  · exact .reject _

end Kernel

namespace Context

open Kernel

variable {c c' : Context} {t : FloatType} {x y output : Tensor}

def matrix (c : Context) (t : FloatType) (x : Tensor) (i j : Nat) : Binary t.format :=
  (c.cell? t x [i, j]).getD (Binary.zero false)

private theorem matrix_strictly (c : Context) (t : FloatType) (x : Tensor) : c.strictly.matrix t x = c.matrix t x := rfl

private theorem matrix_eq (h : c.Ready t x) {m n i j : Nat} (hs : x.shape.toList = [m, n]) (hi : i < m) (hj : j < n) :
    c.cell? t x [i, j] = some (c.matrix t x i j) ∧ (c.floats t x)[i * n + j]? = some (c.matrix t x i j) := by
  have hbelow : List.Forall₂ (· < ·) [i, j] x.shape.toList := by
    rw [hs]
    exact pair_below.2 ⟨hi, hj⟩
  have he := cell?_eq h hbelow
  have hlt : i * n + j < (c.floats t x).size := by
    rw [size_floats, hs]
    simpa using cell_lt hi hj
  rw [hs, position_pair, Array.getElem?_eq_getElem hlt] at he
  rw [matrix, he, Array.getElem?_eq_getElem hlt]
  exact ⟨rfl, rfl⟩

/-- The factor of the old cells, unless it is zero. -/
def scale? (t : FloatType) (beta : Binary .double) : Option (Binary t.accumulator) :=
  if beta.same (Binary.zero false) then none else some (t.ofDouble beta)

/-- What `gemm` does with its buffers. -/
def gemmKernel (t : FloatType) (x y output : Tensor) (e : GemmExtents) (alpha : Binary t.accumulator)
    (beta : Option (Binary t.accumulator)) (arena : Arena) (buffer : Buffer) :
    Result (Array (Binary t.format) → Result (Array (Binary t.format))) := do
  let a ← resolve t arena buffer x output false
  let b ← resolve t arena buffer y output false
  return gemmCells t alpha a.toArray b.toArray beta e

/-- On operands that pass the checks the kernel rejects one whose bytes are not aligned, or it computes every cell
from what the matrices held before. -/
theorem gemmKernel_eq {e : GemmExtents} {id : BufferId} {buffer : Buffer} (hx : c.Ready t x) (hy : c.Ready t y)
    (ho : c.Ready t output) (hid : output.buffer = some id) (hb : c.arena.get? id = some buffer)
    (hsx : x.shape.toList = [e.m, e.k]) (hsy : y.shape.toList = [e.k, e.n]) (hso : output.shape.toList = [e.m, e.n])
    (alpha : Binary t.accumulator) (beta : Option (Binary t.accumulator)) :
    gemmKernel t x y output e alpha beta (c.arena.erase id) buffer = Result.reject (.misaligned t.element) ∨
      ∃ run zs, gemmKernel t x y output e alpha beta (c.arena.erase id) buffer = .ok run ∧
        run (c.floats t output) = .ok zs ∧ zs.size = output.shape.toList.prod ∧
        ∀ i < e.m, ∀ j < e.n, zs[i * e.n + j]? =
          some (gemmCell t alpha beta (sumOfProducts t e.k (c.matrix t x i) fun k => c.matrix t y k j)
            (c.matrix t output i j)) := by
  unfold gemmKernel
  rcases resolve_eq hx ho hid hb false with ⟨left, hleft, -, hlstaged⟩ | hleft
  · rcases resolve_eq hy ho hid hb false with ⟨right, hright, -, hrstaged⟩ | hright
    · obtain rfl := hlstaged rfl
      obtain rfl := hrstaged rfl
      obtain ⟨zs, hzs, hsize, hcells⟩ := gemmCells_eq alpha beta
        (fun i hi k hk => (matrix_eq hx hsx hi hk).2) (fun k hk j hj => (matrix_eq hy hsy hk hj).2)
        (fun i hi j hj => (matrix_eq ho hso hi hj).2) (by rw [size_floats, hso]; simp)
      right
      refine ⟨_, zs, ?_, hzs, by rw [hsize, size_floats], hcells⟩
      rw [hleft, hright]
      rfl
    · left
      rw [hleft, hright]
      rfl
  · left
    rw [hleft]
    rfl

/-- A multiplication stops only where the test for contiguity of one of its matrices stops. -/
theorem gemm_avoids_of_isContiguous (c : Context) (alpha beta : Binary .double) {f : Fault}
    (hx : x.isContiguous.Avoids f) (hy : y.isContiguous.Avoids f) (ho : output.isContiguous.Avoids f) :
    (c.gemm alpha x y beta output).1.Avoids f := by
  apply runKernel_avoids
  · exact .bind (checkGemm_avoids hx hy ho) fun _ _ =>
      .bind (Tensor.numel_avoids_of_isContiguous ho) fun _ _ => .ok _
  · rintro ⟨t, e⟩ hplan
    obtain ⟨hcheck, -⟩ := unlessEmpty_eq_some hplan
    obtain ⟨⟨hxc, hyc, hoc⟩, ⟨hxt, hyt, hot⟩, hsx, hsy, hso⟩ := checkGemm_eq_ok hcheck
    have hvalid : (do c.validate x; c.validate y : Result Unit).Avoids f :=
      .bind (validate_avoids (Tensor.numel_avoids_of_isContiguous hx)) fun _ _ =>
        validate_avoids (Tensor.numel_avoids_of_isContiguous hy)
    simp only
    cases hv : (do c.validate x; c.validate y : Result Unit) with
    | error e =>
      rw [hv] at hvalid
      exact hvalid
    | ok _ =>
      obtain ⟨_, hvx, hvy⟩ := Result.bind_eq_ok.1 hv
      show (c.writeElements t output (gemmKernel t x y output e (t.ofDouble alpha) (scale? t beta))).1.Avoids f
      apply writeElements_avoids hoc hot
      intro id buffer ho hid hb
      rcases gemmKernel_eq ⟨hvx, hxc, hxt⟩ ⟨hvy, hyc, hyt⟩ ho hid hb hsx hsy hso (t.ofDouble alpha) (scale? t beta)
        with hr | ⟨run, zs, hr, hzs, -⟩
      · rw [hr]
        exact .reject _
      · rw [hr, Result.ok_bind, hzs]
        exact .ok _

theorem gemm_avoids (c : Context) (alpha beta : Binary .double) (x y output : Tensor) :
    (c.gemm alpha x y beta output).1.Avoids .access :=
  c.gemm_avoids_of_isContiguous alpha beta x.isContiguous_avoids y.isContiguous_avoids output.isContiguous_avoids

theorem gemm_eq_ok {alpha beta : Binary .double} (hs : c.strict = true)
    (h : c.gemm alpha x y beta output = (.ok (), c')) (hne : output.numel ≠ .ok 0) :
    ∃ (t : FloatType) (e : GemmExtents), (c.Ready t x ∧ c.Ready t y ∧ c.Ready t output) ∧ c'.Ready t output ∧
      (x.shape.toList = [e.m, e.k] ∧ y.shape.toList = [e.k, e.n] ∧ output.shape.toList = [e.m, e.n]) ∧
      ∀ i < e.m, ∀ j < e.n, c'.cell? t output [i, j] =
        some (gemmCell t (t.ofDouble alpha) (scale? t beta)
          (sumOfProducts t e.k (c.matrix t x i) fun k => c.matrix t y k j) (c.matrix t output i j)) := by
  obtain ⟨⟨t, e⟩, n, hcheck, hn, rfl | ⟨-, hrun⟩⟩ := runKernel_unlessEmpty hs h
  · exact absurd hn hne
  · obtain ⟨⟨hxc, hyc, hoc⟩, ⟨hxt, hyt, hot⟩, hsx, hsy, hso⟩ := checkGemm_eq_ok hcheck
    cases hv : (do c.validate x; c.validate y : Result Unit) with
    | error f => simp [hv] at hrun
    | ok _ =>
      simp only [hv] at hrun
      obtain ⟨_, hvx, hvy⟩ := Result.bind_eq_ok.1 hv
      have hx : c.Ready t x := ⟨hvx, hxc, hxt⟩
      have hy : c.Ready t y := ⟨hvy, hyc, hyt⟩
      obtain ⟨id, buffer, run, zs, ho, hid, hb, hkernel, hzs, hleft⟩ := writeElements_eq_ok hoc hot hrun
      replace hkernel : gemmKernel t x y output e (t.ofDouble alpha) (scale? t beta) (c.arena.erase id) buffer =
        .ok run := hkernel
      rcases gemmKernel_eq hx hy ho hid hb hsx hsy hso (t.ofDouble alpha) (scale? t beta)
        with hr | ⟨run', zs', hr, hzs', hsize, hcells⟩
      · simp [hr] at hkernel
      · obtain rfl : run' = run := by simpa [hr] using hkernel
        obtain rfl : zs' = zs := by simpa [hzs'] using hzs
        obtain ⟨ho', hfloats⟩ := hleft hsize
        refine ⟨t, e, ⟨hx, hy, ho⟩, ho', ⟨hsx, hsy, hso⟩, fun i hi j hj => ?_⟩
        have hbelow : List.Forall₂ (· < ·) [i, j] output.shape.toList := by
          rw [hso]
          exact pair_below.2 ⟨hi, hj⟩
        rw [cell?_eq ho' hbelow, hso, position_pair, hfloats, hcells i hi j hj]

/-- No index of a multiplication is out of range, and if it succeeds, is not skipped and has something to write,
then every entry of the output is the one that the matrices before the call determine, whatever bytes they share. -/
theorem gemm_entries (c : Context) (alpha beta : Binary .double) (x y output : Tensor) :
    (c.gemm alpha x y beta output).1 ≠ Result.halt .access ∧
      ∀ c', c.gemm alpha x y beta output = (.ok (), c') → ¬ c.Skips (.gemm alpha x y beta output) →
        output.numel ≠ .ok 0 →
        ∃ (t : FloatType) (m k n : Nat) (A B C : Nat → Nat → Binary t.format),
          (x.type = t.element ∧ y.type = t.element ∧ output.type = t.element) ∧
          (x.shape.toList = [m, k] ∧ y.shape.toList = [k, n] ∧ output.shape.toList = [m, n]) ∧
          (∀ i < m, ∀ l < k, c.cell? t x [i, l] = some (A i l)) ∧
          (∀ l < k, ∀ j < n, c.cell? t y [l, j] = some (B l j)) ∧
          (∀ i < m, ∀ j < n, c.cell? t output [i, j] = some (C i j)) ∧
          ∀ i < m, ∀ j < n, c'.cell? t output [i, j] =
            let product := (t.ofDouble alpha).mul (sumOfProducts t k (A i) fun l => B l j)
            some (t.narrow
              (if beta.same (Binary.zero false) then product
              else product.add ((t.ofDouble beta).mul (t.widen (C i j))))) := by
  refine ⟨c.gemm_avoids alpha beta x y output, fun c' h hskip hne => ?_⟩
  have hstrict := launch_strictly (show c.launch (.gemm alpha x y beta output) = (.ok (), c') from h) hskip
  obtain ⟨t, e, ⟨hx, hy, ho⟩, -, ⟨hsx, hsy, hso⟩, hcells⟩ := gemm_eq_ok rfl hstrict hne
  refine ⟨t, e.m, e.k, e.n, c.matrix t x, c.matrix t y, c.matrix t output, ⟨hx.type, hy.type, ho.type⟩,
    ⟨hsx, hsy, hso⟩, fun i hi l hl => (matrix_eq hx hsx hi hl).1, fun l hl j hj => (matrix_eq hy hsy hl hj).1,
    fun i hi j hj => (matrix_eq ho hso hi hj).1, fun i hi j hj => ?_⟩
  -- what the matrices hold does not depend on the mode
  refine (hcells i hi j hj).trans ?_
  rw [matrix_strictly, matrix_strictly, matrix_strictly]
  unfold scale? gemmCell
  cases beta.same (Binary.zero false) <;> rfl

/-! ### A matrix multiplied by itself in place -/

/-- The floats one to four as a matrix of two rows. -/
def square : Tensor := floatsFrom 0 [2, 2] [8, 4]

/-- `C = 2 * C * C + C`. -/
def squareInPlace : Result Unit × Context :=
  oneToFour.gemm (Binary.ofInt .double 2) square square (Binary.ofInt .double 1) square

example : squareInPlace.2.cell? .f32 square [1, 1] = some (Binary.ofInt .single 48) := by rfl

theorem squareInPlace_entries :
    ∃ (t : FloatType) (m k n : Nat) (A B C : Nat → Nat → Binary t.format),
      (square.type = t.element ∧ square.type = t.element ∧ square.type = t.element) ∧
      (square.shape.toList = [m, k] ∧ square.shape.toList = [k, n] ∧ square.shape.toList = [m, n]) ∧
      (∀ i < m, ∀ l < k, oneToFour.cell? t square [i, l] = some (A i l)) ∧
      (∀ l < k, ∀ j < n, oneToFour.cell? t square [l, j] = some (B l j)) ∧
      (∀ i < m, ∀ j < n, oneToFour.cell? t square [i, j] = some (C i j)) ∧
      ∀ i < m, ∀ j < n, squareInPlace.2.cell? t square [i, j] =
        let product := (t.ofDouble (Binary.ofInt .double 2)).mul (sumOfProducts t k (A i) fun l => B l j)
        some (t.narrow
          (if (Binary.ofInt .double 1).same (Binary.zero false) then product
          else product.add ((t.ofDouble (Binary.ofInt .double 1)).mul (t.widen (C i j))))) :=
  (gemm_entries oneToFour _ _ square square square).2 squareInPlace.2 (Prod.ext rfl rfl)
    (fun h => Bool.noConfusion h.1) (by decide)

end Context

end StridedTensor
