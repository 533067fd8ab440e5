/-
  RelationalQuery.Schema — the tables a statement may name, and their columns.

  Table and column names are identifiers: ASCII case does not tell them apart. Of two
  declarations of a table the later one counts.

  Main definitions:
    * `Schema.declare`: one more table.
    * `Schema.columns`, `Schema.columnCount`, `Schema.hasColumn`: what is known of a table.
-/

import RelationalQuery.Error
import RelationalQuery.Identifier

namespace RelationalQuery

/-- A table: its name and its columns in order. -/
structure Table where
  name : String
  columns : List String
deriving DecidableEq

/-- The declared tables, the latest declaration first. -/
structure Schema where
  tables : List Table
deriving DecidableEq

namespace Schema

def empty : Schema := ⟨[]⟩

/-- Declares a table, in place of any earlier declaration of it. -/
def declare (s : Schema) (name : String) (columns : List String) : Schema :=
  ⟨⟨name, columns⟩ :: s.tables⟩

/-- The declaration that counts for a name. -/
def table? (s : Schema) (name : String) : Option Table :=
  s.tables.find? fun t => decide (Identifier.Same t.name name)

/-- The columns of a table, in the order of its declaration. -/
def columns (s : Schema) (name : String) : Except QueryError (List String) :=
  match s.table? name with
  | some t => .ok t.columns
  | none => .error (.noSuchTable name)

def columnCount (s : Schema) (name : String) : Except QueryError Nat := do
  return (← s.columns name).length

/-- Whether a list of column names has a column. -/
def listsColumn (columns : List String) (column : String) : Bool :=
  columns.any fun c => decide (Identifier.Same c column)

def hasColumn (s : Schema) (table column : String) : Except QueryError Bool := do
  return listsColumn (← s.columns table) column

end Schema

end RelationalQuery
