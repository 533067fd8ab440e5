/-
  RelationalQuery.IntegerType — the integer types that values convert to.

  An integer type is a range of integers, and a number of the type is an integer with a proof
  that it lies there. `isize` and `usize` are as wide as a 64-bit address.

  Main definitions:
    * `Number`: the numbers of a type.
    * `narrow`: an arbitrary integer as a number of the type.
    * `parse`: decimal text as a number of the type.
-/

namespace RelationalQuery

/-- The integer types, signed and unsigned, of 8 to 64 bits. -/
inductive IntegerType where
  | i8 | i16 | i32 | i64 | isize
  | u8 | u16 | u32 | u64 | usize
deriving DecidableEq, Repr

namespace IntegerType

/-- The name of the type. -/
def name : IntegerType → String
  | .i8 => "i8" | .i16 => "i16" | .i32 => "i32" | .i64 => "i64" | .isize => "isize"
  | .u8 => "u8" | .u16 => "u16" | .u32 => "u32" | .u64 => "u64" | .usize => "usize"

/-- Width in bits. -/
def width : IntegerType → Nat
  | .i8 | .u8 => 8
  | .i16 | .u16 => 16
  | .i32 | .u32 => 32
  | .i64 | .isize | .u64 | .usize => 64

/-- Whether the type has negative numbers. -/
def signed : IntegerType → Bool
  | .i8 | .i16 | .i32 | .i64 | .isize => true
  | .u8 | .u16 | .u32 | .u64 | .usize => false

/-- The least number of the type. -/
def min (t : IntegerType) : Int := if t.signed then -(Nat.pow 2 (t.width - 1) : Int) else 0

/-- The greatest number of the type. -/
def max (t : IntegerType) : Int :=
  if t.signed then (Nat.pow 2 (t.width - 1) : Int) - 1 else (Nat.pow 2 t.width : Int) - 1

/-- The numbers of the type. -/
abbrev Number (t : IntegerType) : Type := { n : Int // t.min ≤ n ∧ n ≤ t.max }

/-- Zero belongs to every type. -/
def zero (t : IntegerType) : t.Number := ⟨0, by cases t <;> decide⟩

/-! ## Faults -/

/-- Why an integer or a text is no number of a type. -/
inductive Fault where
  | empty
  | invalidDigit
  | tooLarge
  | tooSmall
deriving DecidableEq, Repr

/-- The fault in words. -/
def Fault.message : Fault → String
  | .empty => "cannot parse integer from empty string"
  | .invalidDigit => "invalid digit found in string"
  | .tooLarge => "number too large to fit in target type"
  | .tooSmall => "number too small to fit in target type"

/-! ## Narrowing and reading -/

/-- The integer as a number of the type. -/
def narrow (t : IntegerType) (n : Int) : Except Fault t.Number :=
  if low : t.min ≤ n then
    if high : n ≤ t.max then .ok ⟨n, low, high⟩ else .error .tooLarge
  else .error .tooSmall

/-- The value of a decimal digit. -/
def digit? (c : Char) : Option Nat :=
  if c.isDigit then some (c.toNat - '0'.toNat) else none

/-- Reads digits after those that spell `read`, away from zero in the direction of `sign`.
Each prefix of the number, and each prefix followed by a zero, has to lie in the type. -/
def readDigits (t : IntegerType) (sign : Int) (read : t.Number) :
    List Char → Except Fault t.Number
  | [] => .ok read
  | c :: rest =>
    match digit? c with
    | none => .error .invalidDigit
    | some d => do
      let shifted ← t.narrow (10 * read.val)
      let next ← t.narrow (shifted.val + sign * d)
      readDigits t sign next rest

/-- Reads decimal text: an optional plus sign, for a signed type an optional minus sign, and at
least one digit. -/
def parse (t : IntegerType) (s : String) : Except Fault t.Number :=
  match s.toList with
  | [] => .error .empty
  | ['+'] | ['-'] => .error .invalidDigit
  | '+' :: digits => t.readDigits 1 t.zero digits
  | '-' :: digits => if t.signed then t.readDigits (-1) t.zero digits else .error .invalidDigit
  | digits => t.readDigits 1 t.zero digits

end IntegerType

end RelationalQuery
