import StridedTensor.Dims.Shape

/-!
# Bounded lists in memory

In memory a bounded list is a count and eight slots. Nothing in `Slots` ties the two together: the slots past the
count may hold anything, and two lists are equal only if these slots are equal as well. The programs here work on the
slots as they are. They copy some of them, overwrite single ones and change the count, and have to leave zeros behind
the last entry (`Dims` is what they leave if they do).

An edit yields its result and the list after it, also where it fails. Making a list from others is partial: there is
none where an error is reported or the program stops.
-/

namespace StridedTensor

/-- The number of entries, and all slots. -/
structure Slots (kind : DimsKind) where
  rank : Nat
  data : Vector Nat maxRank
  deriving DecidableEq

def Dims.toSlots {kind : DimsKind} (d : Dims kind) : Slots kind := ⟨d.rank, d.slots⟩

namespace Slots

variable {kind : DimsKind}

def slot (v : Slots kind) (i : Nat) : Nat := v.data[i]?.getD 0

/-- The entries, which is all that a reader of the list sees. -/
def visible (v : Slots kind) : List Nat := v.data.toList.take v.rank

def get? (v : Slots kind) (i : Nat) : Option Nat := v.visible[i]?

/-- As many zeros. -/
def zeros (rank : Nat) : Slots kind := ⟨rank, Vector.replicate maxRank 0⟩

def empty : Slots kind := zeros 0

def ofList (xs : List Nat) : Result (Slots kind) :=
  if maxRank < xs.length then Result.reject (.rank xs.length)
  else .ok ⟨xs.length, Vector.ofFn fun i => xs.getD i 0⟩

/-! ### Slots -/

/-- Overwrites a slot, whether it is in use or not. -/
def write? (v : Slots kind) (i value : Nat) : Option (Slots kind) :=
  if h : i < maxRank then some { v with data := v.data.set i value h } else none

/-- Copies the slots from `start` up to `stop`, as they were, to those from `target` on. -/
def copyWithin? (v : Slots kind) (start stop target : Nat) : Option (Slots kind) :=
  if start ≤ stop ∧ stop ≤ maxRank ∧ target + (stop - start) ≤ maxRank then
    some { v with data := Vector.ofFn fun i =>
      if target ≤ i.val ∧ i.val < target + (stop - start) then v.slot (start + (i.val - target)) else v.slot i.val }
  else none

/-! ### Edits -/

/-- Makes room for `value` before the entry at `index`, or after the last one. -/
def insert (v : Slots kind) (index value : Nat) : Result Unit × Slots kind :=
  if v.rank = maxRank then (Result.reject (.rank (v.rank + 1)), v)
  else if v.rank < index then (Result.reject (.dim index (v.rank + 1)), v)
  else
    match (v.copyWithin? index v.rank (index + 1)).bind (·.write? index value) with
    | some w => (.ok (), { w with rank := w.rank + 1 })
    | none => (Result.halt .access, v)

def push (v : Slots kind) (value : Nat) : Result Unit × Slots kind := v.insert v.rank value

/-- Closes the gap that the entry at `index` leaves, and clears the slot that falls out of use. -/
def remove (v : Slots kind) (index : Nat) : Result Nat × Slots kind :=
  if v.rank ≤ index then (Result.halt (.removal index v.rank), v)
  else
    match (v.copyWithin? (index + 1) v.rank index).bind (·.write? (v.rank - 1) 0) with
    | some w => (.ok (v.slot index), { w with rank := w.rank - 1 })
    | none => (Result.halt .access, v)

/-- Overwrites an entry. -/
def set? (v : Slots kind) (i value : Nat) : Option (Slots kind) := if i < v.rank then v.write? i value else none

def swap? (v : Slots kind) (i j : Nat) : Option (Slots kind) := do
  let x ← v.get? i
  let y ← v.get? j
  (← v.set? i y).set? j x

/-! ### Lists made from others -/

/-- Writes the stride of one dimension, and yields that of the dimension after it besides. -/
def stride? (shape : Slots .shape) : Slots .strides × Nat → Nat → Option (Slots .strides × Nat)
  | (strides, stride), dim => do return (← strides.write? dim stride, ← Word.mul? stride (← shape.get? dim))

/-- The strides of dimensions that lie side by side in the given order, the first one with a stride of `size`. -/
def denseStrides? (shape : Slots .shape) (size : Nat) (order : List Nat) : Option (Slots .strides) :=
  (order.foldlM shape.stride? (zeros shape.rank, size)).map Prod.fst

def canonicalStrides? (shape : Slots .shape) (type : ElementType) : Option (Slots .strides) :=
  shape.denseStrides? type.size (List.range shape.rank).reverse

def columnMajorStrides? (shape : Slots .shape) (type : ElementType) : Option (Slots .strides) :=
  shape.denseStrides? type.size (List.range shape.rank)

/-- The extent `index` places before the last one. A dimension that is not there counts as one. -/
def trailing? (shape : Slots .shape) (index : Nat) : Option Nat :=
  match Word.sub? shape.rank (index + 1) with
  | some dim => shape.get? dim
  | none => some 1

def broadcast? (a b : Slots .shape) : Option (Slots .shape) :=
  let rank := max a.rank b.rank
  (List.range rank).foldlM (fun output index => do
    output.write? (rank - 1 - index) (← Shape.joinExtent? (← a.trailing? index) (← b.trailing? index))) (zeros rank)

/-- Entry `i` is entry `permutation[i]` of the list. -/
def permute? (v : Slots kind) (permutation : List Nat) : Option (Slots kind) :=
  if Dims.isPermutation v.rank permutation then
    permutation.zipIdx.foldlM (fun output (dim, index) => do output.set? index (← v.get? dim)) v
  else none

/-- The stride along a dimension that takes on the extent `target`. -/
def stretch? (extent stride target : Nat) : Option Nat :=
  if extent = target then some stride else if extent = 1 then some 0 else none

/-- The strides of a tensor of the given shape and strides when it is expanded. -/
def expand? (shape : Slots .shape) (strides : Slots .strides) (target : Slots .shape) : Option (Slots .strides) :=
  if target.rank < shape.rank then none
  else do
    let lead := target.rank - shape.rank
    let output ← (ofList (List.replicate target.rank 0)).toOption
    (List.range shape.rank).foldlM (fun output dim => do
      output.set? (lead + dim) (← stretch? (← shape.get? dim) (← strides.get? dim) (← target.get? (lead + dim)))) output

/-! ### Runs -/

/-- The lists that come about when the programs are applied to what they made before, in any order and any number of
times. An edit that fails leaves a list as well. -/
inductive Reachable : {kind : DimsKind} → Slots kind → Prop
  | empty {kind : DimsKind} : Reachable (empty : Slots kind)
  | ofList {kind : DimsKind} {xs : List Nat} {v : Slots kind} (made : ofList xs = .ok v) : Reachable v
  | push {kind : DimsKind} {v : Slots kind} (base : Reachable v) (value : Nat) : Reachable (v.push value).2
  | insert {kind : DimsKind} {v : Slots kind} (base : Reachable v) (index value : Nat) :
    Reachable (v.insert index value).2
  | remove {kind : DimsKind} {v : Slots kind} (base : Reachable v) (index : Nat) : Reachable (v.remove index).2
  | set {kind : DimsKind} {v w : Slots kind} (base : Reachable v) {i value : Nat} (made : v.set? i value = some w) :
    Reachable w
  | swap {kind : DimsKind} {v w : Slots kind} (base : Reachable v) {i j : Nat} (made : v.swap? i j = some w) :
    Reachable w
  | canonical {s : Slots .shape} {w : Slots .strides} (base : Reachable s) {type : ElementType}
    (made : s.canonicalStrides? type = some w) : Reachable w
  | columnMajor {s : Slots .shape} {w : Slots .strides} (base : Reachable s) {type : ElementType}
    (made : s.columnMajorStrides? type = some w) : Reachable w
  | broadcast {a b c : Slots .shape} (left : Reachable a) (right : Reachable b) (made : broadcast? a b = some c) :
    Reachable c
  | permute {kind : DimsKind} {v w : Slots kind} (base : Reachable v) {permutation : List Nat}
    (made : v.permute? permutation = some w) : Reachable w
  | expand {shape target : Slots .shape} {strides w : Slots .strides} (ofShape : Reachable shape)
    (ofStrides : Reachable strides) (same : strides.rank = shape.rank) (ofTarget : Reachable target)
    (made : expand? shape strides target = some w) : Reachable w

end Slots

end StridedTensor
