/-
  RelationalQuery.Binary64.Shortest — the shortest decimal that reads back as a number.

  The reals that round to a positive finite number form an interval around it, ends included
  when its significand is even. On each decimal grid, one digit finer at a time, only the two
  neighbours of the number need a look: the first grid on which one of them lies in the
  interval gives the digits, the nearer of two, the greater of two equally near.

  Main definitions:
    * `Interval`, `roundingInterval`: the reals that round to a number.
    * `shortest`: the decimal.
-/

import RelationalQuery.Binary64.Rounding

namespace RelationalQuery.Binary64

/-! ## The rounding interval -/

/-- The reals from `low / den` to `high / den` around `mid / den`. -/
structure Interval where
  low : Nat
  mid : Nat
  high : Nat
  den : Nat
  closed : Bool

/-- The reals that round to a positive finite number, in units of a quarter of the distance
to the next number. Below a power of two the numbers lie twice as close. -/
def roundingInterval (x : Binary64) : Interval :=
  let quarters := 4 * x.significand
  let below := if x.fraction = 0 then 1 else 2
  let power := x.exponent - 2
  let scale := Nat.pow 2 power.toNat
  ⟨(quarters - below) * scale, quarters * scale, (quarters + 2) * scale,
    Nat.pow 2 (-power).toNat, x.significand % 2 == 0⟩

/-- `num / den` lies in the interval. -/
def Interval.holds (i : Interval) (num den : Nat) : Bool :=
  let point := num * i.den
  if i.closed then decide (i.low * den ≤ point ∧ point ≤ i.high * den)
  else decide (i.low * den < point ∧ point < i.high * den)

/-! ## Decimal grids -/

/-- The number of digits before the decimal point of `num / den`: zero or less when the ratio
is below a tenth or a power of it. Positive ratios of this format have at most 323 zeros. -/
def leadingPlace (num den : Nat) : Int :=
  if den ≤ num then ((toString (num / den)).length : Int)
  else 1 - (((List.range 325).find? fun j => decide (den ≤ num * Nat.pow 10 j)).getD 325 : Nat)

/-- The point of the grid of step `10 ^ exponent` next to the middle of the interval that lies
in it, the nearer one if both do. -/
def Interval.gridPoint? (i : Interval) (exponent : Int) : Option Decimal :=
  let up := Nat.pow 10 exponent.toNat
  let down := Nat.pow 10 (-exponent).toNat
  let below := i.mid * down / (i.den * up)
  let remainder := i.mid * down % (i.den * up)
  let lower := i.holds (below * up) down
  let upper := i.holds ((below + 1) * up) down
  if upper && (!lower || decide (i.den * up ≤ 2 * remainder)) then some ⟨below + 1, exponent⟩
  else if lower then some ⟨below, exponent⟩
  else none

/-- The shortest decimal that rounds to a positive finite number. Seventeen digits suffice. -/
def shortest (x : Binary64) : Decimal :=
  let i := x.roundingInterval
  let place := leadingPlace i.mid i.den
  let grids := (List.range 17).map fun n => place - (n + 1 : Nat)
  (grids.findSome? i.gridPoint?).getD ⟨i.mid / i.den, 0⟩

end RelationalQuery.Binary64
