/-
  RelationalQuery.Utf8 — text stored as bytes.

  A byte string is decoded as a whole. When it is no text, the fault says where the first
  ill-formed sequence starts and how long it is: the bytes up to, not including, the first
  byte that no well-formed sequence could have there.

  Main definitions:
    * `encode`, `decode`: text to bytes and back.
    * `fault?`: the first ill-formed sequence of a byte string.
-/

namespace RelationalQuery.Utf8

/-- Why a byte string is no text. -/
inductive Fault where
  /-- `length` bytes from `start` begin no well-formed sequence. -/
  | invalid (length start : Nat)
  /-- The bytes end inside the sequence that begins at `start`. -/
  | incomplete (start : Nat)
deriving DecidableEq, Repr

/-- The fault in words. -/
def Fault.message : Fault → String
  | .invalid length start =>
    "invalid utf-8 sequence of " ++ toString length ++ " bytes from index " ++ toString start
  | .incomplete start => "incomplete utf-8 byte sequence from index " ++ toString start

/-! ## Well-formed sequences -/

/-- What a sequence still needs: how many bytes, and the bounds of the next one. -/
structure Expected where
  owed : Nat
  low : UInt8
  high : UInt8

/-- Between two sequences nothing is owed. -/
def Expected.boundary : Expected := ⟨0, 0x80, 0xBF⟩

/-- What a leading byte calls for, if it can lead a sequence. -/
def lead? (byte : UInt8) : Option Expected :=
  if byte ≤ 0x7F then some .boundary
  else if 0xC2 ≤ byte ∧ byte ≤ 0xDF then some ⟨1, 0x80, 0xBF⟩
  else if byte = 0xE0 then some ⟨2, 0xA0, 0xBF⟩
  else if byte = 0xED then some ⟨2, 0x80, 0x9F⟩
  else if 0xE1 ≤ byte ∧ byte ≤ 0xEF then some ⟨2, 0x80, 0xBF⟩
  else if byte = 0xF0 then some ⟨3, 0x90, 0xBF⟩
  else if 0xF1 ≤ byte ∧ byte ≤ 0xF3 then some ⟨3, 0x80, 0xBF⟩
  else if byte = 0xF4 then some ⟨3, 0x80, 0x8F⟩
  else none

/-- Reads on from inside the sequence that began at `start`, of which `seen` bytes are read. -/
def scan (start seen : Nat) (next : Expected) : List UInt8 → Option Fault
  | [] => if next.owed = 0 then none else some (.incomplete start)
  | byte :: rest =>
    if next.owed = 0 then
      match lead? byte with
      | none => some (.invalid 1 start)
      | some ⟨0, _, _⟩ => scan (start + 1) 0 .boundary rest
      | some expected => scan start 1 expected rest
    else if next.low ≤ byte ∧ byte ≤ next.high then
      if next.owed = 1 then scan (start + seen + 1) 0 .boundary rest
      else scan start (seen + 1) ⟨next.owed - 1, 0x80, 0xBF⟩ rest
    else some (.invalid seen start)

/-- The first ill-formed sequence. -/
def fault? (bytes : List UInt8) : Option Fault := scan 0 0 .boundary bytes

/-! ## Text and bytes -/

/-- The bytes of a text. -/
def encode (text : String) : List UInt8 := text.toUTF8.data.toList

/-- The text that the bytes spell, or the fault that makes them no text. -/
def decode (bytes : List UInt8) : Except Fault String :=
  match String.fromUTF8? ⟨bytes.toArray⟩ with
  | some text => .ok text
  | none => .error ((fault? bytes).getD (.incomplete 0))

end RelationalQuery.Utf8
