/-
  RelationalQuery.Arguments — the arguments of a statement.

  Positional values belong to the placeholders in order; named values belong to placeholders
  of that name, and a name has one value. Arguments of fragments are merged left to right, and
  a name that two fragments bind has to be bound to values that agree.

  Main definitions:
    * `push`, `set`, `value?`: single values.
    * `merge`, `append`: the arguments of two fragments as those of one.
-/

import RelationalQuery.Error
import RelationalQuery.Value.Basic

namespace RelationalQuery

/-- Positional values in placeholder order, and named values in the order of first binding. -/
structure Arguments where
  positional : List Value
  named : List (String × Value)
deriving DecidableEq, Inhabited

namespace Arguments

def empty : Arguments := ⟨[], []⟩

/-- The number of values. -/
def size (a : Arguments) : Nat := a.positional.length + a.named.length

def isEmpty (a : Arguments) : Bool := a.positional.isEmpty && a.named.isEmpty

/-- Adds a positional value after the others. -/
def push (a : Arguments) (v : Value) : Arguments := { a with positional := a.positional ++ [v] }

/-- The value bound to a name. -/
def value? (a : Arguments) (name : String) : Option Value := a.named.lookup name

/-- Named values with one more binding, which replaces an earlier one in its place. -/
def bind (name : String) (v : Value) : List (String × Value) → List (String × Value)
  | [] => [(name, v)]
  | (other, w) :: rest =>
    if other = name then (name, v) :: rest else (other, w) :: bind name v rest

/-- Binds a name. -/
def set (a : Arguments) (name : String) (v : Value) : Arguments :=
  { a with named := bind name v a.named }

def ofPositional (values : List Value) : Arguments := ⟨values, []⟩

/-- Named values only; of two bindings of a name the later value counts. -/
def ofNamed (pairs : List (String × Value)) : Arguments :=
  pairs.foldl (fun a pair => a.set pair.1 pair.2) empty

/-! ## Merging -/

/-- Adds bindings one by one up to the first that contradicts an earlier one, whose name is
the second component. -/
def mergeNamed (a : Arguments) : List (String × Value) → Arguments × Option String
  | [] => (a, none)
  | (name, v) :: rest =>
    match a.value? name with
    | some w => if w.agrees v then mergeNamed a rest else (a, some name)
    | none => mergeNamed { a with named := a.named ++ [(name, v)] } rest

/-- The arguments of two fragments in a row, as far as they can be merged, and the name bound to
two different values, if any. -/
def merge (a b : Arguments) : Arguments × Option String :=
  mergeNamed { a with positional := a.positional ++ b.positional } b.named

/-- The arguments of two fragments in a row. -/
def append (a b : Arguments) : Except QueryError Arguments :=
  match a.merge b with
  | (merged, none) => .ok merged
  | (_, some name) => .error (.argumentReused name)

end Arguments

end RelationalQuery
