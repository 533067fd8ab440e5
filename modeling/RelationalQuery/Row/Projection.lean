/-
  RelationalQuery.Row.Projection — the shape of a query's rows.

  The root of a row exposes every column of the statement. Each included relation exposes the
  slice of columns that its own selection produced; a relation that is only joined exposes
  none, and has a variant only to carry those of the relations included below it.

  Slices are found in two steps. The widths of the emitted entries give the column offset of
  every entry, one past the last included; then the relations, in the order in which their
  entries were emitted, consume entries and read their slices off the offsets.

  Main definitions:
    * `Relation.shape`: the variant of a relation, and the entries left after it.
    * `Query.rowShape`: the shape of a query's rows.
    * `Projection`: a shape bound to the columns of a statement.
-/

import RelationalQuery.Row.Shape
import RelationalQuery.Select.Width

namespace RelationalQuery

/-! ## Slices -/

/-- The offsets after each of the given entries, from `start` on. -/
def offsetsFrom (members : List (SourceId × Width)) (start : Nat) :
    List ResultColumn → Except QueryError (List Nat)
  | [] => .ok []
  | column :: rest => do
    let next := start + (← column.widthAmong members)
    let rest ← offsetsFrom members next rest
    return next :: rest

/-- The slice of `count` entries from entry `slot` on. -/
def sliceAt (offsets : List Nat) (slot count : Nat) : Layout :=
  let start := offsets[slot]?.getD 0
  .range start (offsets[slot + count]?.getD start)

mutual

/-- The variant of a relation whose entries begin at `slot`, and the slot after those of the
relation and of all below it. -/
def Relation.shape (offsets : List Nat) (included : Bool) (slot : Nat) :
    Relation → Option RowShape × Nat
  | ⟨_, target, _, _, selection, joins⟩ =>
    let count := if included then (selection target.id).length else 0
    let nested := Join.shapes offsets (slot + count) joins
    let base := if included then sliceAt offsets slot count else .empty
    if included || !nested.1.isEmpty then
      (some ((RowShape.plain base).withVariants nested.1), nested.2)
    else (none, nested.2)

/-- The variants of joins in order, under the logical names of their relations. -/
def Join.shapes (offsets : List Nat) (slot : Nat) : List Join → List (String × RowShape) × Nat
  | [] => ([], slot)
  | ⟨included, _, relation⟩ :: rest =>
    let own := relation.shape offsets included slot
    let others := Join.shapes offsets own.2 rest
    ((own.1.map fun shape => (relation.name, shape)).toList ++ others.1, others.2)

end

/-! ## Queries -/

/-- The shape of a query's rows. -/
def Query.rowShape (schema : Schema) (q : Query) : Except QueryError RowShape := do
  let offsets ← offsetsFrom (q.members schema) 0 q.emitted
  let joins := (q.source.map (·.joins)).getD []
  let variants := (Join.shapes (0 :: offsets) q.selection.length joins).1
  return (RowShape.plain .all).withVariants variants

/-- The columns of a statement, and the shape of its rows bound to them. -/
structure Projection where
  columns : List String
  binding : RowBinding

/-- Binds a shape to the columns of a statement. -/
def Projection.ofShape (shape : RowShape) (columns : List String) :
    Except QueryError Projection := do
  return ⟨columns, ← shape.bind columns⟩

/-- The projection of a statement that was compiled from the query. The statement must have as many
columns as the query returns. -/
def Query.projection (schema : Schema) (q : Query) (columns : List String) :
    Except QueryError Projection := do
  let expected ← q.width schema
  if expected ≠ columns.length then .error (.columnCountMismatch expected columns.length)
  else Projection.ofShape (← q.rowShape schema) columns

end RelationalQuery
