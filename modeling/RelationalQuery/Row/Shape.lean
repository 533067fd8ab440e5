/-
  RelationalQuery.Row.Shape — which columns of a flat result row belong to what.

  A row exposes some of the statement's columns, and has named variants that expose others: one
  for every relation whose columns the query includes, nested as the relations are. A shape
  says so by column positions or names; bound to the columns of a statement it says so by
  positions alone.

  Main definitions:
    * `Layout`, `RowShape`: what a row exposes, and its variants.
    * `RowBinding`: the same, resolved.
    * `RowShape.bind`: the resolution.
-/

import RelationalQuery.Error
import RelationalQuery.Identifier

namespace RelationalQuery

/-- The statement columns that a row exposes. -/
inductive Layout where
  | all
  /-- The columns from a position on. -/
  | suffix (start : Nat)
  /-- The columns from `start` up to, not including, `stop`. -/
  | range (start stop : Nat)
  /-- Columns picked by name, each under a name to expose it by. -/
  | mapping (pairs : List (String × String))
  | empty
deriving DecidableEq, Repr

/-- What a row exposes, and its named variants. -/
structure RowShape where
  layout : Layout
  variants : List (String × RowShape)

/-- Columns as a statement position and an exposed name, and named variants. -/
structure RowBinding where
  columns : List (Nat × String)
  variants : List (String × RowBinding)

/-! ## Shapes -/

/-- A list of named entries with one more, which replaces an entry of that name in its place. -/
def putNamed {α : Type} (name : String) (entry : α) : List (String × α) → List (String × α)
  | [] => [(name, entry)]
  | (other, old) :: rest =>
    if other = name then (name, entry) :: rest else (other, old) :: putNamed name entry rest

namespace RowShape

/-- A row without variants. -/
def plain (layout : Layout) : RowShape := ⟨layout, []⟩

/-- Adds a variant, in place of one of that name. -/
def withVariant (shape : RowShape) (name : String) (variant : RowShape) : RowShape :=
  { shape with variants := putNamed name variant shape.variants }

/-- Adds variants one by one. -/
def withVariants (shape : RowShape) (variants : List (String × RowShape)) : RowShape :=
  variants.foldl (fun shape variant => shape.withVariant variant.1 variant.2) shape

end RowShape

/-! ## Binding -/

/-- The first position of a column, ASCII case aside. -/
def position? (column : String) (names : List String) : Option Nat :=
  names.findIdx? fun name => decide (Identifier.Same name column)

/-- Each name with its position. -/
def numbered (names : List String) : List (Nat × String) := names.zipIdx.map fun p => (p.2, p.1)

/-- Resolves the pairs of a mapping in order. -/
def bindMapping (names : List String) :
    List (String × String) → Except QueryError (List (Nat × String))
  | [] => .ok []
  | (consumed, produced) :: rest =>
    match position? consumed names with
    | none => .error (.missingColumn none consumed names)
    | some index => do
      let rest ← bindMapping names rest
      return (index, produced) :: rest

/-- The columns of a layout in a statement with the given columns. -/
def Layout.bind (names : List String) : Layout → Except QueryError (List (Nat × String))
  | .all => .ok (numbered names)
  | .suffix start =>
    if names.length < start then .error (.columnCountMismatch start names.length)
    else .ok ((numbered names).drop start)
  | .range start stop =>
    if stop < start ∨ names.length < stop then .error (.columnCountMismatch stop names.length)
    else .ok (((numbered names).take stop).drop start)
  | .mapping pairs => bindMapping names pairs
  | .empty => .ok []

mutual

/-- Resolves a shape against the columns of a statement. -/
def RowShape.bind (names : List String) : RowShape → Except QueryError RowBinding
  | ⟨layout, variants⟩ => do
    let columns ← layout.bind names
    let variants ← RowShape.bindVariants names variants
    return ⟨columns, variants⟩

/-- Resolves variants in order. -/
def RowShape.bindVariants (names : List String) :
    List (String × RowShape) → Except QueryError (List (String × RowBinding))
  | [] => .ok []
  | (name, shape) :: rest => do
    let binding ← shape.bind names
    let rest ← RowShape.bindVariants names rest
    return (name, binding) :: rest

end

namespace RowBinding

/-- The number of exposed columns. -/
def size (b : RowBinding) : Nat := b.columns.length

/-- The exposed names. -/
def names (b : RowBinding) : List String := b.columns.map (·.2)

/-- The statement position of an exposed column. -/
def statementIndex? (b : RowBinding) (index : Nat) : Option Nat := b.columns[index]?.map (·.1)

/-- The statement position of the first exposed column of a name, ASCII case aside. -/
def indexOf? (b : RowBinding) (name : String) : Option Nat :=
  (b.columns.find? fun column => decide (Identifier.Same column.2 name)).map (·.1)

/-- A variant, by its exact name. -/
def variant? (b : RowBinding) (name : String) : Option RowBinding := b.variants.lookup name

end RowBinding

end RelationalQuery
