/-
  RelationalQuery.Value.Conversion — values as native data and back.

  A type that values convert to says what each storage class becomes in it. NULL has no form
  in a type unless the type is optional. Integers are narrowed with a range check, and a real
  becomes an integer only when it is one: no conversion loses anything silently.

  Main definitions:
    * `FromStorage`: what each storage class becomes in a type.
    * `convert`: the conversion.
    * `ToValue`: the value that native data is stored as.
-/

import RelationalQuery.Error
import RelationalQuery.Value.Basic

namespace RelationalQuery

/-- What the values of each storage class become in a type. -/
class FromStorage (α : Type) where
  ofInteger : Int64 → Except ConversionError α
  ofReal : Binary64 → Except ConversionError α
  ofText : String → Except ConversionError α
  ofBlob : List UInt8 → Except ConversionError α
  ofNull : Except ConversionError α := .error .unexpectedNull

/-- Reads a value as a type. -/
def Value.convert (α : Type) [FromStorage α] (v : Value) : Except QueryError α :=
  let converted : Except ConversionError α :=
    match v with
    | .integer n => FromStorage.ofInteger n
    | .real x => FromStorage.ofReal x
    | .text s => FromStorage.ofText s
    | .blob bytes => FromStorage.ofBlob bytes
    | .null => FromStorage.ofNull
  converted.mapError .mapping

/-! ## Integers -/

/-- The integer of type `t` that a real is. A real beyond the 64-bit integers is out of range for
every type, the unsigned ones included. -/
def integerOfReal (t : IntegerType) (x : Binary64) : Except ConversionError t.Number :=
  match x.toInt? with
  | none => .error (.lossyReal x t)
  | some n =>
    if -(Nat.pow 2 63 : Int) ≤ n ∧ n < Nat.pow 2 63 then (t.narrow n).mapError fun _ => .realOutOfRange x t
    else .error (.realOutOfRange x t)

instance (t : IntegerType) : FromStorage t.Number where
  ofInteger n := (t.narrow n.toInt).mapError (.integerOutOfRange n.toInt t)
  ofReal := integerOfReal t
  ofText s := (t.parse s).mapError (.unreadableInteger s t)
  ofBlob _ := .error (.classMismatch .blob t.name)

/-! ## Other types -/

instance : FromStorage Binary64 where
  ofInteger n := .ok (.ofInt n.toInt)
  ofReal := .ok
  ofText s := (Binary64.parse s).mapError (.unreadableReal s)
  ofBlob _ := .error (.classMismatch .blob "f64")

/-- The truth value that a text spells, in any ASCII case. -/
def readBoolean (s : String) : Except ConversionError Bool :=
  let word := String.ofList (s.toList.map Char.toLower)
  if word = "true" ∨ word = "1" then .ok true
  else if word = "false" ∨ word = "0" then .ok false
  else .error (.unreadableBoolean s)

instance : FromStorage Bool where
  ofInteger n := .ok (n != 0)
  ofReal x := .ok (!x.isZero)
  ofText := readBoolean
  ofBlob _ := .error (.classMismatch .blob "bool")

instance : FromStorage String where
  ofInteger n := .ok (toString n.toInt)
  ofReal x := .ok x.text
  ofText := .ok
  ofBlob bytes := (Utf8.decode bytes).mapError .invalidText

instance : FromStorage (List UInt8) where
  ofInteger _ := .error (.classMismatch .integer "BLOB")
  ofReal _ := .error (.classMismatch .real "BLOB")
  ofText s := .ok (Utf8.encode s)
  ofBlob := .ok

instance {α : Type} [FromStorage α] : FromStorage (Option α) where
  ofInteger n := some <$> FromStorage.ofInteger n
  ofReal x := some <$> FromStorage.ofReal x
  ofText s := some <$> FromStorage.ofText s
  ofBlob bytes := some <$> FromStorage.ofBlob bytes
  ofNull := .ok none

/-! ## Native data as values -/

/-- The value that data of a type is stored as. -/
class ToValue (α : Type) where
  toValue : α → Value

export ToValue (toValue)

instance : ToValue Int64 := ⟨.integer⟩

instance : ToValue Bool := ⟨fun b => .integer (if b then 1 else 0)⟩

instance : ToValue Binary64 := ⟨.real⟩

instance : ToValue String := ⟨.text⟩

instance : ToValue (List UInt8) := ⟨.blob⟩

instance {α : Type} [ToValue α] : ToValue (Option α) := ⟨fun data => (data.map toValue).getD .null⟩

/-- The integer types whose every number is a 64-bit integer, and may be stored as one. -/
def IntegerType.storable : IntegerType → Bool
  | .i8 | .i16 | .i32 | .i64 | .u8 | .u16 | .u32 => true
  | .isize | .u64 | .usize => false

/-- The value that a number of a storable integer type is stored as. -/
def Value.ofNumber {t : IntegerType} (n : t.Number) (_storable : t.storable = true) : Value :=
  .integer (Int64.ofInt n.val)

end RelationalQuery
