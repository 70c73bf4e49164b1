import StridedTensor.Dims.Edit

/-!
# Shapes

The element count of a shape, the strides of its two dense layouts, its indices in row-major order, and the
broadcasting of two shapes. Counts and strides are computed in 64 bits, step by step in a fixed order, and a step
that leaves them is a fault even where a later factor zero would bring the product back.
-/

namespace StridedTensor

/-! ### 64-bit arithmetic

Extents, strides, offsets and sizes are natural numbers below `2 ^ 64`. Operations that can leave that range are
partial: they have no result there, and the caller decides what that means. -/

namespace Word

def limit : Nat := 1 <<< 64

def add? (a b : Nat) : Option Nat := if a + b < limit then some (a + b) else none

def sub? (a b : Nat) : Option Nat := if b ≤ a then some (a - b) else none

def mul? (a b : Nat) : Option Nat := if a * b < limit then some (a * b) else none

/-- The product of the factors from left to right, each partial product within range. -/
def product? (factors : List Nat) : Option Nat := factors.foldlM mul? 1

theorem add?_eq_some {a b c : Nat} : add? a b = some c ↔ a + b < limit ∧ c = a + b := by
  unfold add?; split <;> simp <;> omega

theorem sub?_eq_some {a b c : Nat} : sub? a b = some c ↔ b ≤ a ∧ c = a - b := by
  unfold sub?; split <;> simp <;> omega

theorem mul?_eq_some {a b c : Nat} : mul? a b = some c ↔ a * b < limit ∧ c = a * b := by
  unfold mul?; split <;> simp <;> omega

end Word

namespace Shape

/-! ### Counts -/

def numel (s : Shape) : Result Nat := Result.ofWord? (Word.product? s.toList)

def byteSize (s : Shape) (t : ElementType) : Result Nat := do
  Result.ofWord? (Word.mul? (← s.numel) t.size)

/-! ### Dense strides -/

/-- The strides of the dimensions `extents` when the last one advances by `size`, and the stride that a further
dimension in front would have. -/
def rowMajor? (size : Nat) : List Nat → Option (List Nat × Nat)
  | [] => some ([], size)
  | n :: ns => do
    let (strides, stride) ← rowMajor? size ns
    return (stride :: strides, ← Word.mul? stride n)

def columnMajor? (stride : Nat) : List Nat → Option (List Nat)
  | [] => some []
  | n :: ns => do
    let next ← Word.mul? stride n
    return stride :: (← columnMajor? next ns)

def strides (s : Shape) (entries : List Nat) : Strides := Dims.build s.rank s.rank_le fun i => entries.getD i 0

/-! ### Indices -/

def indices : List Nat → List (List Nat)
  | [] => [[]]
  | n :: ns => (List.range n).flatMap fun i => (indices ns).map (i :: ·)

/-! ### Broadcasting -/

/-- The extent that two paired dimensions share: one of them, where the other is equal or one. -/
def joinExtent? (x y : Nat) : Option Nat :=
  if x = y then some x else if x = 1 then some y else if y = 1 then some x else none

/-- Joins extents pairwise; the longer list keeps its rest. -/
def joinExtents? : List Nat → List Nat → Option (List Nat)
  | [], ys => some ys
  | xs, [] => some xs
  | x :: xs, y :: ys => do return (← joinExtent? x y) :: (← joinExtents? xs ys)

/-- The shape that both `a` and `b` stretch to. Dimensions are paired from the last one backwards. -/
def broadcast (a b : Shape) : Result Shape :=
  match joinExtents? a.toList.reverse b.toList.reverse with
  | some extents => Dims.ofList extents.reverse
  | none => Result.reject (.broadcast a b)

def canBroadcast (a b : Shape) : Bool := (broadcast a b).isOk

end Shape

end StridedTensor
