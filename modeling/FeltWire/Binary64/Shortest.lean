import FeltWire.Binary64

/-!
# Shortest decimals

The decimal with the fewest digits that reads back as a given double, and of
those with so few digits the one nearest to it.

The decimals with a last digit at one place form a grid. Only the two points of
a grid next to the number can be nearest, and if any point of the grid reads
back as the number then one of these two does. So the grids are tried from the
coarsest on, and the first with a hit has the fewest digits.

## Main definitions

* `Decimal`: a coefficient and a power of ten
* `TieRule`: which of two equally near decimals is taken
* `Binary64.shortest`: the shortest decimal of a finite number's absolute value
-/

namespace FeltWire

/-- A decimal number `coefficient * 10 ^ exponent`. -/
structure Decimal where
  coefficient : Nat
  exponent : Int
deriving DecidableEq, Repr

/-- Which of two equally near decimals is taken, the even one or the greater. -/
inductive TieRule where
  | toEven
  | up
deriving DecidableEq, Repr

namespace Binary64

/-- The least place that the grids reach is `10 ^ -gridShift`. -/
def gridShift : Nat := 350

/-- Everything is measured in units of `2 ^ -1076 * 10 ^ -gridShift`, in which
the points of each grid, the number and the ends of the interval that rounds to
it are natural numbers. -/
structure Interval where
  low : Nat
  value : Nat
  high : Nat
  closed : Bool

/-- The interval of the reals that round to a number: half a unit in the last
place to each side, but only a quarter below a power of two. The ends belong to
it if the significand is even. -/
def interval (x : Binary64) : Interval :=
  let quarter := 2 ^ x.exponent * 10 ^ gridShift
  let value := 4 * x.significand * quarter
  let below := if x.fraction = 0 ∧ 1 < x.exponentField then quarter else 2 * quarter
  ⟨value - below, value, value + 2 * quarter, x.significand % 2 = 0⟩

/-- A grid point `n` lies in the interval, whose ends count if it is
`closed`. -/
def Interval.contains (i : Interval) (n : Nat) : Bool :=
  if i.closed then i.low ≤ n ∧ n ≤ i.high else i.low < n ∧ n < i.high

/-- The nearest point of the grid with the given `step` that lies in an
interval, as a multiple of the step; `tie` decides between two of them. -/
def Interval.hit? (i : Interval) (tie : TieRule) (step : Nat) : Option Nat :=
  let below := i.value / step
  let excess := i.value - below * step
  match i.contains (below * step), i.contains ((below + 1) * step) with
  | false, false => none
  | true, false => some below
  | false, true => some (below + 1)
  | true, true =>
    if 2 * excess < step then some below
    else if step < 2 * excess then some (below + 1)
    else match tie with
      | .toEven => some (if below % 2 = 0 then below else below + 1)
      | .up => some (below + 1)

/-- The step of the grid whose last place is `10 ^ (place - gridShift)`. -/
def gridStep (place : Nat) : Nat := 10 ^ place * 2 ^ 1076

/-- The first hit (`Interval.hit?`) among `count + 1` grids, from the given
`place` down. -/
def shortestFrom (i : Interval) (tie : TieRule) (place : Nat) : (count : Nat) → Decimal
  | 0 => ⟨i.value / gridStep place, (place : Int) - gridShift⟩
  | count + 1 =>
    match i.hit? tie (gridStep place) with
    | some n => ⟨n, (place : Int) - gridShift⟩
    | none => shortestFrom i tie (place - 1) count

/-- **The shortest decimal** of a finite number's absolute value. The coarsest
grid is the one whose step just exceeds the number; 17 digits always suffice for
`shortestFrom`. -/
def shortest (x : Binary64) (tie : TieRule) : Decimal :=
  if x.significand = 0 then ⟨0, 0⟩
  else
    let i := x.interval
    shortestFrom i tie (Nat.toDigits 10 (i.value / 2 ^ 1076)).length 18

end Binary64

end FeltWire
