/-
  RelationalQuery.Row.View — reading a fetched row.

  A view is a row seen through a binding: the values that it exposes, under the names that it
  exposes them by. The values of a row may be fewer than its statement has columns; what is
  missing cannot be read.

  Main definitions:
    * `RowView.value?`, `RowView.get?`, `RowView.read`: single columns.
    * `RowView.variant?`: the view of an included relation.
-/

import RelationalQuery.Row.Shape
import RelationalQuery.Value.Conversion

namespace RelationalQuery

/-- The values of a row, seen through a binding. -/
structure RowView where
  values : List Value
  binding : RowBinding

namespace RowView

/-- The value of the first column of a name, ASCII case aside. -/
def value? (v : RowView) (name : String) : Option Value := do
  v.values[← v.binding.indexOf? name]?

/-- The value of a column by its position in the view. -/
def get? (v : RowView) (index : Nat) : Option Value := do
  v.values[← v.binding.statementIndex? index]?

/-- The value of the first column of a name, read as a type. -/
def read (α : Type) [FromStorage α] (v : RowView) (name : String) : Except QueryError α :=
  match v.value? name with
  | some value => value.convert α
  | none => .error (.missingColumn none name v.binding.names)

/-- The exposed values that are there, in order. -/
def exposed (v : RowView) : List Value := v.binding.columns.filterMap fun c => v.values[c.1]?

/-- Every exposed value is NULL, as for an optional relation without a match. -/
def isAllNull (v : RowView) : Bool := v.exposed.all (·.isNull)

/-- The view of a variant. -/
def variant? (v : RowView) (name : String) : Option RowView :=
  (v.binding.variant? name).map fun binding => ⟨v.values, binding⟩

end RowView

end RelationalQuery
