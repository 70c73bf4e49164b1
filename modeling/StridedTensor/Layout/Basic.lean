import StridedTensor.Dims.Shape

/-!
# Layouts

A layout is a shape with a byte stride for each of its dimensions. It places the element at index `i` at the
distance `Σ i k * stride k` from the first element. What a layout means is read off its axes, the pairs of extent
and stride, so two layouts with the same axes are the same.
-/

namespace StridedTensor

structure Layout where
  shape : Shape
  strides : Strides
  same_rank : strides.rank = shape.rank
  deriving DecidableEq

/-- Extent and stride of one dimension. -/
abbrev Axis := Nat × Nat

namespace Layout

def rank (l : Layout) : Nat := l.shape.rank

def axes (l : Layout) : List Axis := l.shape.toList.zip l.strides.toList

def ofEntries (s : Shape) (entries : List Nat) : Layout := ⟨s, s.strides entries, rfl⟩

def canonical (s : Shape) (t : ElementType) : Result Layout := do
  let (entries, _) ← Result.ofWord? (Shape.rowMajor? t.size s.toList)
  return ofEntries s entries

def columnMajor (s : Shape) (t : ElementType) : Result Layout := do
  return ofEntries s (← Result.ofWord? (Shape.columnMajor? t.size s.toList))

/-! ### Distances -/

/-- The distance of the last element from the first, for extents that are positive. -/
def lastDistance? (axes : List Axis) : Option Nat :=
  axes.foldlM (fun sum (extent, stride) => do Word.add? (← Word.mul? (extent - 1) stride) sum) 0

def distance? (axes : List Axis) (index : List Nat) : Option Nat :=
  (index.zip axes).foldlM (fun sum (i, _, stride) => do Word.add? sum (← Word.mul? i stride)) 0

def inBounds (l : Layout) (index : List Nat) : Bool :=
  index.length == l.rank && (index.zip l.shape.toList).all fun (i, n) => i < n

/-! ### The row-major walk

The walk keeps the current index and offset, and moves from one element to the next by stepping along the last
dimension that has not come to its end and going back to the start of all dimensions after it. Axes and index are
listed from the last dimension to the first.
-/

/-- The index and offset after those given; after the last element the first again. -/
def next? : List Axis → List Nat → Nat → Option (List Nat × Nat)
  | (extent, stride) :: axes, i :: index, offset =>
    if i + 1 < extent then do
      return ((i + 1) :: index, ← Word.add? offset stride)
    else do
      let start ← Word.sub? offset (← Word.mul? i stride)
      let (rest, offset) ← next? axes index start
      return (0 :: rest, offset)
  | _, _, offset => some ([], offset)

def walk? (axes : List Axis) : (count : Nat) → (index : List Nat) → (offset : Nat) → Option (List Nat)
  | 0, _, _ => some []
  | count + 1, index, offset => do
    let (index', offset') ← next? axes index offset
    return offset :: (← walk? axes count index' offset')

/-! ### Density -/

/-- Whether each axis advances by the bytes of all axes before it, beginning with `stride`. An axis of extent one
is never stepped along, so its stride does not matter. -/
def packed? (stride : Nat) : List Axis → Option Bool
  | [] => some true
  | (extent, s) :: axes =>
    if extent = 1 then packed? stride axes
    else if s ≠ stride then some false
    else do packed? (← Word.mul? stride extent) axes

def isPacked (l : Layout) (t : ElementType) (axes : List Axis) : Result Bool := do
  if (← l.shape.numel) = 0 then return true
  Result.ofWord? (packed? t.size axes)

def isContiguous (l : Layout) (t : ElementType) : Result Bool := l.isPacked t l.axes.reverse

def isColumnMajor (l : Layout) (t : ElementType) : Result Bool := l.isPacked t l.axes

/-- Whether different indices share an element: a stride of zero along more than one. -/
def isBroadcast (l : Layout) : Bool := l.axes.any fun (extent, stride) => 1 < extent && stride == 0

end Layout

end StridedTensor
