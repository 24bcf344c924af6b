-- SUMMARY: The shortest decimal that rounds to a given double.
import QueryCompiler.Double

/-!
# Shortest decimals

Many decimals round to the same double. The shortest one lies on the coarsest
grid of powers of ten that has a point among the reals that round to it; of two
such points the nearer is taken, and a tie goes where the writer of the number
wants it. All arithmetic is on natural numbers.
-/

namespace QueryCompiler

/-- The positive decimal `digits · 10 ^ exponent`. -/
structure Decimal where
  digits : Nat
  exponent : Int
deriving DecidableEq, Repr

namespace Decimal

/-- Which of two equally near decimals is taken. -/
inductive Tie where
  | even
  | up
deriving DecidableEq, Repr

/-- The reals that round to one double: from `low` to `high` in units of `num / den`, with the double
itself at `middle`. The ends belong to it when `closed`. -/
structure Interval where
  low : Nat
  middle : Nat
  high : Nat
  closed : Bool
  num : Nat
  den : Nat
deriving DecidableEq, Repr

/-- The interval of a positive finite double. In quarters of the last place it reaches two quarters to
either side, and one quarter down where the doubles below lie twice as dense. -/
def Interval.ofDouble (x : Double) : Interval :=
  let m := x.significand
  let step := if x.fractionField = 0 ∧ 1 < x.exponentField then 1 else 2
  let unit := x.scale - 2
  { low := 4 * m - step
    middle := 4 * m
    high := 4 * m + 2
    closed := m % 2 == 0
    num := Nat.pow 2 unit.toNat
    den := Nat.pow 2 (-unit).toNat }

/-- Whether the point `d` of the grid of step `stepNum / stepDen` lies in the interval. -/
def Interval.has (i : Interval) (stepNum stepDen d : Nat) : Bool :=
  let point := d * stepNum * i.den
  let unit := i.num * stepDen
  if i.closed then i.low * unit ≤ point && point ≤ i.high * unit
  else i.low * unit < point && point < i.high * unit

/-- The point of the grid `10 ^ k` that stands for the interval, when the grid has one. -/
def Interval.pick? (i : Interval) (tie : Tie) (k : Int) : Option Decimal :=
  let stepNum := Nat.pow 10 k.toNat
  let stepDen := Nat.pow 10 (-k).toNat
  let middle := i.middle * (i.num * stepDen)
  let cell := stepNum * i.den
  let below := middle / cell
  let above := below + 1
  match i.has stepNum stepDen below, i.has stepNum stepDen above with
  | false, false => none
  | true, false => some ⟨below, k⟩
  | false, true => some ⟨above, k⟩
  | true, true =>
    let toBelow := middle - below * cell
    let toAbove := above * cell - middle
    if toBelow < toAbove then some ⟨below, k⟩
    else if toAbove < toBelow then some ⟨above, k⟩
    else match tie with
      | .up => some ⟨above, k⟩
      | .even => if below % 2 = 0 then some ⟨below, k⟩ else some ⟨above, k⟩

/-- The grids that can matter for a double, from the coarsest to the finest. -/
def grids : List Int :=
  (List.range 650).map (310 - Int.ofNat ·)

/-- The shortest decimal that rounds to the magnitude of a finite double, none for zero. -/
def shortest? (tie : Tie) (x : Double) : Option Decimal :=
  if x.significand = 0 then none
  else grids.findSome? ((Interval.ofDouble x).pick? tie)

end Decimal

end QueryCompiler
