import StridedTensor.Binary.Format

/-!
# Shortest decimals

A floating-point number is written with the fewest digits that still tell it apart from every other number of
its format: of all decimals inside the interval that rounds to the number, those on the coarsest grid of powers of
ten, and of them the nearest. Of two equally near ones the larger is taken. The text is positional, without an
exponent, however many zeros that takes.
-/

namespace StridedTensor.Binary

variable {f : Format}

/-- The numbers that round to `v`, between `low` and `high`, all four times the real ones and in units of a power
of two. The ends belong to the interval when the significand is even. -/
structure Interval where
  low : Nat
  v : Nat
  high : Nat
  closed : Bool
  exponent : Int

def interval (f : Format) (m : Nat) (e : Int) : Interval :=
  -- below a power of two the numbers are twice as dense, unless it is the least normal number
  let below := if m = 1 <<< f.fractionBits ∧ f.leastExponent < e then 1 else 2
  ⟨4 * m - below, 4 * m, 4 * m + 2, m % 2 = 0, e - 2⟩

/-- The multiple of `10 ^ k` nearest to the number, divided by `10 ^ k`, if one lies in the interval. It is
one of the two neighbours of the number on that grid. -/
def onGrid? (i : Interval) (k : Int) : Option Nat :=
  let scale := Nat.pow 10 (-k).toNat <<< i.exponent.toNat
  let unit := Nat.pow 10 k.toNat <<< (-i.exponent).toNat
  let (low, v, high) := (i.low * scale, i.v * scale, i.high * scale)
  let lower := v / unit
  let upper := lower + 1
  let fits (n : Nat) : Bool :=
    if i.closed then low ≤ n * unit ∧ n * unit ≤ high else low < n * unit ∧ n * unit < high
  match fits lower, fits upper with
  | true, true => some (if v - lower * unit < upper * unit - v then lower else upper)
  | true, false => some lower
  | false, true => some upper
  | false, false => none

def firstGrid (i : Interval) : (fuel : Nat) → (k : Int) → Nat × Int
  | 0, k => ((onGrid? i k).getD 0, k)
  | fuel + 1, k =>
    match onGrid? i k with
    | some digits => (digits, k)
    | none => firstGrid i fuel (k - 1)

/-- Digits and exponent of the shortest decimal for `m * 2 ^ e`, with `m` positive. The search begins above the
number and ends at the latest where the grid is as fine as the format. -/
def shortest (f : Format) (m : Nat) (e : Int) : Nat × Int :=
  let top : Int := (((m.log2 : Int) + e + 1) * 30103) / 100000 + 1
  firstGrid (interval f m e) (f.fractionBits + 4) top

def positional (digits : Nat) (k : Int) : String :=
  let text := toString digits
  if 0 ≤ k then text ++ String.ofList (List.replicate k.toNat '0')
  else
    let places := (-k).toNat
    let cs := text.toList
    let padded := List.replicate (places + 1 - cs.length) '0' ++ cs
    let whole := padded.length - places
    String.ofList (padded.take whole) ++ "." ++ String.ofList (padded.drop whole)

def display (x : Binary f) : String :=
  match x.value with
  | .nan => "NaN"
  | .infinity s => if s then "-inf" else "inf"
  | .finite s m e =>
    let sign := if s then "-" else ""
    if m = 0 then sign ++ "0"
    else
      let (digits, k) := shortest f m e
      sign ++ positional digits k

end StridedTensor.Binary
