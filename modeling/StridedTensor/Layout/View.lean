import StridedTensor.Layout.Basic

/-!
# Views of a layout

Each operation yields the layout of a view onto the same memory. They move, drop, add and restrict axes; none of
them looks at the elements.
-/

namespace StridedTensor.Layout

def swap (l : Layout) (i j : Nat) : Layout := ⟨l.shape.swap i j, l.strides.swap i j, l.same_rank⟩

def erase (l : Layout) (dim : Nat) : Layout :=
  ⟨l.shape.erase dim, l.strides.erase dim, by simp [l.same_rank]⟩

def gather (l : Layout) (p : Nat → Nat) : Layout := ⟨l.shape.gather p, l.strides.gather p, l.same_rank⟩

def resize (l : Layout) (dim extent : Nat) : Layout := ⟨l.shape.set dim extent, l.strides, l.same_rank⟩

/-- The layout with a new axis before the axis `dim`, or after the last one. -/
def insert (l : Layout) (dim extent stride : Nat) : Result Layout :=
  match hs : l.shape.insert dim extent, ht : l.strides.insert dim stride with
  | .ok shape, .ok strides =>
    .ok ⟨shape, strides, by rw [Dims.rank_insert hs, Dims.rank_insert ht, l.same_rank]⟩
  | .error e, _ => .error e
  | _, .error e => .error e

def transpose (l : Layout) : Layout := if l.rank < 2 then l else l.swap (l.rank - 2) (l.rank - 1)

/-- Drops every axis of extent one, the last one first. -/
def squeeze (l : Layout) : Layout :=
  (List.range l.rank).reverse.foldl (fun l dim => if l.shape.entry dim = 1 then l.erase dim else l) l

/-- The strides of the axes when stretched to the given extents: zero along an axis of extent one that grows. -/
def stretch? : List Axis → List Nat → Option (List Nat)
  | [], _ => some []
  | _ :: _, [] => none
  | (extent, stride) :: axes, target :: targets => do
    let s ← if extent = target then some stride else if extent = 1 then some 0 else none
    return s :: (← stretch? axes targets)

/-- The layout stretched to `target`. New axes come first and have stride zero. -/
def expand (l : Layout) (target : Shape) : Result Layout :=
  if target.rank < l.rank then Result.reject (.expand l.shape target)
  else
    let lead := target.rank - l.rank
    match stretch? l.axes (target.toList.drop lead) with
    | some entries => .ok (ofEntries target (List.replicate lead 0 ++ entries))
    | none => Result.reject (.expand l.shape target)

end StridedTensor.Layout
