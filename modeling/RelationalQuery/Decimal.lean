/-
  RelationalQuery.Decimal — decimal numbers and their positional text.

  A decimal is `digits · 10 ^ exponent`. Its text has no exponent: zeros fill the places
  between the digits and the point, and the fraction, if there is one, ends in a digit
  other than zero.

  Main definitions:
    * `strip`: the same number with no trailing zero among its digits.
    * `text`: the positional text.
-/

namespace RelationalQuery

/-- The number `digits · 10 ^ exponent`. -/
structure Decimal where
  digits : Nat
  exponent : Int
deriving DecidableEq, Repr

namespace Decimal

/-- Drops up to `limit` trailing zeros from the digits, counting each in the exponent. -/
def stripUpTo : Nat → Decimal → Decimal
  | 0, d => d
  | limit + 1, d =>
    if d.digits ≠ 0 ∧ d.digits % 10 = 0 then stripUpTo limit ⟨d.digits / 10, d.exponent + 1⟩
    else d

/-- The same number with as few digits as possible. -/
def strip (d : Decimal) : Decimal := stripUpTo (toString d.digits).length d

/-- `count` zeros. -/
def zeros (count : Nat) : List Char := List.replicate count '0'

/-- The text of `digits` with the decimal point `places` digits from the right. -/
def pointed (digits : List Char) (places : Nat) : List Char :=
  if places < digits.length then
    digits.take (digits.length - places) ++ '.' :: digits.drop (digits.length - places)
  else '0' :: '.' :: (zeros (places - digits.length) ++ digits)

/-- Positional text of a nonnegative decimal. -/
def text (d : Decimal) : String :=
  let d := d.strip
  let digits := (toString d.digits).toList
  if 0 ≤ d.exponent then String.ofList (digits ++ zeros d.exponent.toNat)
  else String.ofList (pointed digits (-d.exponent).toNat)

end Decimal

end RelationalQuery
