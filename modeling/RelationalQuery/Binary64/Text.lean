/-
  RelationalQuery.Binary64.Text — 64-bit numbers as text.

  Written: the shortest decimal that reads back, in positional form, after a minus sign if the
  sign bit is set. Read: an optional sign, then `inf`, `infinity` or `nan` in any case, or
  digits with at most one point among them and an optional power of ten.

  Main definitions:
    * `text`: the written form.
    * `parse`: the reader, which rounds correctly.
-/

import RelationalQuery.Binary64.Shortest

namespace RelationalQuery.Binary64

/-! ## Writing -/

/-- The written form of the number without its sign. -/
def unsignedText (x : Binary64) : String :=
  if x.isZero then "0" else if x.isFinite then x.shortest.text else "inf"

/-- The written form. A NaN has no sign. -/
def text (x : Binary64) : String :=
  if x.isNaN then "NaN"
  else if x.negative then "-" ++ x.unsignedText else x.unsignedText

/-! ## Reading -/

/-- Why a text is no number. -/
inductive Fault where
  | empty
  | malformed
deriving DecidableEq, Repr

/-- The fault in words. -/
def Fault.message : Fault → String
  | .empty => "cannot parse float from empty string"
  | .malformed => "invalid float literal"

/-- The number that a run of decimal digits spells. -/
def digitsValue (digits : List Char) : Nat :=
  digits.foldl (fun n c => 10 * n + (c.toNat - '0'.toNat)) 0

/-- Sign and remaining characters. -/
def splitSign : List Char → Bool × List Char
  | '-' :: rest => (true, rest)
  | '+' :: rest => (false, rest)
  | cs => (false, cs)

/-- The power of ten after the mantissa: nothing, or `e` with an optional sign and digits. -/
def exponent? : List Char → Option Int
  | [] => some 0
  | c :: rest =>
    let (negative, digits) := splitSign rest
    if c.toLower = 'e' ∧ digits ≠ [] ∧ digits.all Char.isDigit then
      some (if negative then -(digitsValue digits : Int) else (digitsValue digits : Int))
    else none

/-- The characters after a decimal point, if there is one, split where their digits end. -/
def fractionSpan : List Char → List Char × List Char
  | '.' :: rest => rest.span Char.isDigit
  | rest => ([], rest)

/-- The decimal that unsigned text spells. -/
def decimal? (cs : List Char) : Option Decimal :=
  let (whole, rest) := cs.span Char.isDigit
  let (fraction, rest) := fractionSpan rest
  if whole.isEmpty && fraction.isEmpty then none
  else (exponent? rest).map fun e => ⟨digitsValue (whole ++ fraction), e - fraction.length⟩

/-- Reads a number. -/
def parse (s : String) : Except Fault Binary64 :=
  if s.isEmpty then .error .empty
  else
    let (negative, cs) := splitSign s.toList
    let word := String.ofList (cs.map Char.toLower)
    if word = "inf" ∨ word = "infinity" then .ok (infinity negative)
    else if word = "nan" then .ok nan
    else match decimal? cs with
      | some d => .ok (ofDecimal negative d)
      | none => .error .malformed

end RelationalQuery.Binary64
