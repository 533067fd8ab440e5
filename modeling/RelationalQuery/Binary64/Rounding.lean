/-
  RelationalQuery.Binary64.Rounding — the nearest 64-bit number to a ratio.

  A positive ratio is written as an integer of 53 bits times a power of two, or of fewer bits
  when the power would fall below the least one. The integer is rounded to nearest, ties to
  even, and the magnitude bits follow by adding it to the exponent field: a carry out of the
  fraction moves to the next exponent, and past the last exponent to infinity.

  Main definitions:
    * `roundHalfEven`: an integer nearest to a ratio.
    * `ofRatio`, `ofInt`, `ofDecimal`, `ofBinary32`: numbers nearest to other numbers.
-/

import RelationalQuery.Binary64.Basic
import RelationalQuery.Decimal

namespace RelationalQuery.Binary64

/-! ## Rounding a ratio -/

/-- The integer nearest to `num / den`; of two equally near, the even one. -/
def roundHalfEven (num den : Nat) : Nat :=
  let quotient := num / den
  let remainder := num % den
  if 2 * remainder < den then quotient
  else if den < 2 * remainder then quotient + 1
  else quotient + quotient % 2

/-- `num / den` scaled by `2 ^ -power`, as a numerator and a denominator. -/
def scaled (num den : Nat) (power : Int) : Nat × Nat :=
  if 0 ≤ power then (num, den * Nat.pow 2 power.toNat) else (num * Nat.pow 2 (-power).toNat, den)

/-- The power of two at which `num / den` has an integer part of 53 bits, or the least one. -/
def unitPower (num den : Nat) : Int :=
  let guess : Int := (Nat.log2 num : Int) - (Nat.log2 den : Int) - 53
  let (n, d) := scaled num den guess
  max (if Nat.pow 2 53 ≤ n / d then guess + 1 else guess) (-1074)

/-- Magnitude bits of the number nearest to `num / den`, for `den` other than zero. -/
def nearestMagnitude (num den : Nat) : Nat :=
  if num = 0 then 0
  else
    let power := unitPower num den
    let (n, d) := scaled num den power
    let significand := roundHalfEven n d
    min (significand + (power + 1074).toNat * Nat.pow 2 52) infiniteMagnitude

/-- The number nearest to `± num / den`. -/
def ofRatio (negative : Bool) (num den : Nat) : Binary64 :=
  ofMagnitude negative (nearestMagnitude num den)

/-! ## Other numbers -/

/-- The number nearest to an integer. -/
def ofInt (n : Int) : Binary64 := ofRatio (decide (n < 0)) n.natAbs 1

/-- The number nearest to `± d`. Decimals far out of range are settled without their power. -/
def ofDecimal (negative : Bool) (d : Decimal) : Binary64 :=
  let top : Int := (toString d.digits).length + d.exponent
  if d.digits = 0 then ofMagnitude negative 0
  else if 310 < top then infinity negative
  else if top < -330 then ofMagnitude negative 0
  else if 0 ≤ d.exponent then ofRatio negative (d.digits * Nat.pow 10 d.exponent.toNat) 1
  else ofRatio negative d.digits (Nat.pow 10 (-d.exponent).toNat)

/-- The number that a 32-bit pattern stands for; every such number has a 64-bit form. -/
def ofBinary32 (bits : UInt32) : Binary64 :=
  let negative := decide (Nat.pow 2 31 ≤ bits.toNat)
  let field := bits.toNat % Nat.pow 2 31 / Nat.pow 2 23
  let fraction := bits.toNat % Nat.pow 2 23
  if field = 255 then if fraction = 0 then infinity negative else nan
  else
    let significand := if field = 0 then fraction else Nat.pow 2 23 + fraction
    ofRatio negative (significand * Nat.pow 2 (max field 1)) (Nat.pow 2 150)

end RelationalQuery.Binary64
