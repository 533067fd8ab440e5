/-
  RelationalQuery.Value.Basic — database values.

  A value belongs to one of five storage classes, ordered INTEGER < REAL < TEXT < BLOB < NULL.
  Values of one class are compared within it: text by its bytes, blobs byte by byte, reals as
  numbers. A NaN is unordered, so it does not even agree with itself.

  Main definitions:
    * `Value`: the five storage classes.
    * `compare?`, `agrees`: comparison and the equality that goes with it.
    * `sqlText`: a value as an SQL constant.
-/

import RelationalQuery.Binary64.Text
import RelationalQuery.Utf8

namespace RelationalQuery

/-- A database value, bound as a statement argument or read from a row. -/
inductive Value where
  | integer (n : Int64)
  | real (x : Binary64)
  | text (s : String)
  | blob (bytes : List UInt8)
  | null
deriving DecidableEq, Inhabited

namespace Value

/-! ## The value as one storage class -/

def isNull : Value → Bool
  | .null => true
  | _ => false

def integer? : Value → Option Int64
  | .integer n => some n
  | _ => none

def real? : Value → Option Binary64
  | .real x => some x
  | _ => none

def text? : Value → Option String
  | .text s => some s
  | _ => none

def blob? : Value → Option (List UInt8)
  | .blob bytes => some bytes
  | _ => none

/-! ## Comparison -/

/-- Place of the storage class in the order of values. -/
def classRank : Value → Nat
  | .integer _ => 0
  | .real _ => 1
  | .text _ => 2
  | .blob _ => 3
  | .null => 4

/-- Byte strings in the order of a dictionary. -/
def compareBytes : List UInt8 → List UInt8 → Ordering
  | [], [] => .eq
  | [], _ :: _ => .lt
  | _ :: _, [] => .gt
  | a :: as, b :: bs => (compare a.toNat b.toNat).then (compareBytes as bs)

/-- Comparison of two values; it is undefined only between two reals of which one is a NaN. -/
def compare? : Value → Value → Option Ordering
  | .integer m, .integer n => some (compare m.toInt n.toInt)
  | .real x, .real y => x.compare? y
  | .text s, .text t => some (compareBytes (Utf8.encode s) (Utf8.encode t))
  | .blob a, .blob b => some (compareBytes a b)
  | a, b => some (compare a.classRank b.classRank)

/-- Two values agree: they are of one class and equal there, reals being equal as numbers. -/
def agrees : Value → Value → Bool
  | .integer m, .integer n => m == n
  | .real x, .real y => x.equal y
  | .text s, .text t => s == t
  | .blob a, .blob b => a == b
  | .null, .null => true
  | _, _ => false

/-! ## SQL constants -/

/-- The characters of a text constant between its quotes: a single quote is written twice. -/
def escape : List Char → List Char
  | [] => []
  | c :: rest => if c = '\x27' then '\x27' :: '\x27' :: escape rest else c :: escape rest

/-- A digit in base sixteen, in upper case. -/
def hexDigit (n : Nat) : Char :=
  if n < 10 then Char.ofNat ('0'.toNat + n) else Char.ofNat ('A'.toNat + (n - 10))

/-- Two digits in base sixteen. -/
def hexByte (byte : UInt8) : List Char := [hexDigit (byte.toNat / 16), hexDigit (byte.toNat % 16)]

/-- The value as an SQL constant. -/
def sqlText : Value → String
  | .integer n => toString n.toInt
  | .real x => x.text
  | .text s => "'" ++ String.ofList (escape s.toList) ++ "'"
  | .blob bytes => "X'" ++ String.ofList (bytes.flatMap hexByte) ++ "'"
  | .null => "NULL"

end Value

end RelationalQuery
