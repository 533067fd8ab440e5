/-
  RelationalQuery.Scope.Basic — what is visible where a statement is written.

  A scope holds the names of the statement being written and of the statements around it, so
  that a column of an outer source can be used inside. A subquery in an expression opens a new
  scope; a subquery in a FROM clause is written in the scope of the statement around it.

  Main definitions:
    * `Scope`: the schema and the namings, innermost first.
    * `Scope.enter`: the scope inside a statement.
    * `Scope.name`: the name of a source.
-/

import RelationalQuery.Schema
import RelationalQuery.Scope.Naming

namespace RelationalQuery

/-- The schema, and the names of the statements around, innermost first. -/
structure Scope where
  schema : Schema
  namings : List Naming

namespace Scope

/-- The scope around a statement that stands alone. -/
def outermost (schema : Schema) : Scope := ⟨schema, []⟩

/-- The names in use, folded. -/
def visible (s : Scope) : List String := (s.namings.flatMap (·.names)).map Identifier.fold

/-- The scope inside a statement whose FROM clause has the given leaves. -/
def enter (s : Scope) (occurrences : List Occurrence) : Except QueryError Scope := do
  return { s with namings := (← Naming.resolve s.visible occurrences) :: s.namings }

/-- The entry of a source in the innermost statement that has it. -/
def find? (s : Scope) (id : SourceId) : Option (Option String) :=
  s.namings.findSome? fun naming => naming.lookup id

/-- The name of a source. An error about a source outside all statements mentions `column`. -/
def name (s : Scope) (id : SourceId) (column : String) : Except QueryError (Option String) :=
  match s.find? id with
  | some name => .ok name
  | none => .error (.detachedSource column)

/-- The name of a source, if it is visible and has one. -/
def name? (s : Scope) (id : SourceId) : Option String := (s.find? id).join

end Scope

end RelationalQuery
