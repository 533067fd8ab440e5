/-
  RelationalQuery.Binary64.Basic — 64-bit binary floating-point numbers, by their bits.

  A number is its bit pattern: a sign bit, eleven exponent bits and 52 fraction bits. A
  finite number is `± significand · 2 ^ exponent`, exactly. Every operation here is integer
  arithmetic on these two, so nothing is rounded unless a definition says so.

  Main definitions:
    * `significand`, `exponent`: the exact value of a finite number.
    * `compare?`, `equal`: comparison, in which a NaN is unordered and the two zeros agree.
    * `toInt?`: the integer that a number is, if it is one.
-/

namespace RelationalQuery

/-- A 64-bit binary floating-point number, as its bit pattern. -/
structure Binary64 where
  bits : UInt64
deriving DecidableEq, Repr, Inhabited

namespace Binary64

/-! ## Fields of the bit pattern -/

/-- The sign bit. -/
def negative (x : Binary64) : Bool := decide (Nat.pow 2 63 ≤ x.bits.toNat)

/-- The bits below the sign: they order the numbers of one sign by size. -/
def magnitude (x : Binary64) : Nat := x.bits.toNat % Nat.pow 2 63

/-- The magnitude of an infinity; a greater one belongs to a NaN. -/
def infiniteMagnitude : Nat := 2047 * Nat.pow 2 52

def isNaN (x : Binary64) : Bool := decide (infiniteMagnitude < x.magnitude)

def isFinite (x : Binary64) : Bool := decide (x.magnitude < infiniteMagnitude)

def isZero (x : Binary64) : Bool := decide (x.magnitude = 0)

/-- The exponent bits. -/
def exponentField (x : Binary64) : Nat := x.magnitude / Nat.pow 2 52

/-- The fraction bits. -/
def fraction (x : Binary64) : Nat := x.magnitude % Nat.pow 2 52

/-- Integer part of a finite number's value: `significand · 2 ^ exponent`. -/
def significand (x : Binary64) : Nat :=
  if x.exponentField = 0 then x.fraction else Nat.pow 2 52 + x.fraction

/-- Power of two in a finite number's value. -/
def exponent (x : Binary64) : Int := (max x.exponentField 1 : Nat) - 1075

/-- The number with the given sign and magnitude. -/
def ofMagnitude (negative : Bool) (magnitude : Nat) : Binary64 :=
  ⟨UInt64.ofNat (magnitude + if negative then Nat.pow 2 63 else 0)⟩

def infinity (negative : Bool) : Binary64 := ofMagnitude negative infiniteMagnitude

/-- The quiet NaN with no payload. -/
def nan : Binary64 := ofMagnitude false (infiniteMagnitude + Nat.pow 2 51)

/-! ## Comparison -/

/-- Signed magnitude: it orders all numbers but NaNs, and takes both zeros to zero. -/
def orderKey (x : Binary64) : Int :=
  if x.negative then -(x.magnitude : Int) else (x.magnitude : Int)

/-- Comparison of two numbers; a NaN compares with nothing. -/
def compare? (x y : Binary64) : Option Ordering :=
  if x.isNaN || y.isNaN then none else some (compare x.orderKey y.orderKey)

/-- Equality of two numbers: no NaN equals anything, and the zeros are equal. -/
def equal (x y : Binary64) : Bool := x.compare? y == some .eq

/-! ## Integers -/

/-- `significand · 2 ^ exponent` when that is an integer. -/
def integralMagnitude? (x : Binary64) : Option Nat :=
  if 0 ≤ x.exponent then some (x.significand * Nat.pow 2 x.exponent.toNat)
  else
    let unit := Nat.pow 2 (-x.exponent).toNat
    if x.significand % unit = 0 then some (x.significand / unit) else none

/-- The integer that the number is; an infinity, a NaN and a fraction are none. -/
def toInt? (x : Binary64) : Option Int :=
  if x.isFinite then
    x.integralMagnitude?.map fun n => if x.negative then -(n : Int) else (n : Int)
  else none

end Binary64

end RelationalQuery
