/-
  RelationalQuery.Proofs.Execution.Engine — the data that a running statement works on.

  Which values there are, what operators and functions give on them and when one value equals
  another is up to the engine. What a SELECT does with rows is not: it joins them, filters them,
  groups them, gives each a list of cells, and drops repeated ones, in that order. So the engine
  stands here as a parameter, and the steps over rows are definitions.

  A result that is not there means that the statement is not accepted: a column that no source has,
  or that two have, an aggregate where there is no group, a function that does not exist.

  Main definitions:
    * `Sql.Engine`, `Sql.Database`: the values, and the tables.
    * `Sql.Binding`, `Sql.Context`: a row of a FROM clause, and what an expression is evaluated in.
    * `Sql.Joined`, `Sql.Table`: what a FROM clause and a statement give.
-/

import RelationalQuery.Identifier
import RelationalQuery.Select.Basic

namespace RelationalQuery.Sql

/-! ## Truth -/

/-- The truth of a condition, or nothing where it is unknown. -/
abbrev Truth : Type := Option Bool

namespace Truth

/-- The truth, or its opposite. -/
def negatedIf (negated : Bool) (t : Truth) : Truth := if negated then t.map (!·) else t

/-- False beside a false condition, and otherwise unknown beside an unknown one. -/
def all (ts : List Truth) : Truth :=
  if some false ∈ ts then some false else if none ∈ ts then none else some true

/-- True beside a true condition, and otherwise unknown beside an unknown one. -/
def any (ts : List Truth) : Truth :=
  if some true ∈ ts then some true else if none ∈ ts then none else some false

end Truth

/-! ## Rows of a FROM clause -/

/-- What one source contributes to a row: the name that it goes by, its columns in order, and those
that no star gives. -/
structure Binding (Cell : Type) where
  name : Option String
  columns : List (Option String × Cell)
  hidden : List (String × Cell)

/-- A row of a FROM clause, source by source. -/
abbrev Frame (Cell : Type) : Type := List (Binding Cell)

/-- What an expression is evaluated in: a row of its statement, then one of each statement around,
and the rows that an aggregate ranges over, where there may be one. -/
structure Context (Cell : Type) where
  frames : List (Frame Cell)
  group : Option (List (Frame Cell))

/-- The rows of a FROM clause, and the one whose columns are all NULL. -/
structure Joined (Cell : Type) where
  blank : Frame Cell
  rows : List (Frame Cell)

/-- The result of a statement: the names of its columns, as far as they have any, and its rows. -/
structure Table (Cell : Type) where
  names : List (Option String)
  rows : List (List Cell)
deriving DecidableEq

section Rows

variable {Cell : Type}

/-- The columns of the source that have the name. The hidden ones count when no other has it. -/
def Binding.cells (column : String) (b : Binding Cell) : List Cell :=
  match b.columns.filter fun p => p.1.any fun name => decide (Identifier.Same name column) with
  | [] => (b.hidden.filter fun p => decide (Identifier.Same p.1 column)).map (·.2)
  | found => found.map (·.2)

/-- The source goes by the name, if one is asked for. -/
def Binding.answers (qualifier : Option String) (b : Binding Cell) : Bool :=
  qualifier.all fun name => b.name.any fun own => decide (Identifier.Same own name)

/-- The column in the innermost statement that has it. There it has to be the only one. -/
def Context.column? (qualifier : Option String) (column : String) :
    List (Frame Cell) → Option Cell
  | [] => none
  | frame :: outer =>
    match (frame.filter (·.answers qualifier)).flatMap (·.cells column) with
    | [] => Context.column? qualifier column outer
    | [cell] => some cell
    | _ => none

/-- The contexts of the rows that an aggregate ranges over. -/
def Context.members (c : Context Cell) : Option (List (Context Cell)) :=
  c.group.map fun rows => rows.map fun row => ⟨row :: c.frames.tail, none⟩

/-- The columns that a star gives: those of all sources, or of the one that has the name. -/
def Frame.star (qualifier : Option String) (frame : Frame Cell) :
    Option (List (Option String × Cell)) :=
  match qualifier with
  | none => some (frame.flatMap (·.columns))
  | some name => (frame.find? (·.answers (some name))).map (·.columns)

end Rows

/-! ## Engines and databases -/

/-- What is up to the engine. -/
structure Engine (Cell : Type) where
  null : Cell
  isNull : Cell → Bool
  /-- A bound value. -/
  value : Value → Cell
  /-- The result of counting. -/
  count : Nat → Cell
  /-- The result of a condition. -/
  ofTruth : Truth → Cell
  /-- A cell as a condition. -/
  truth : Cell → Truth
  /-- The comparison by an equality sign. -/
  equal : Cell → Cell → Truth
  /-- What IS, DISTINCT and GROUP BY compare by. -/
  same : Cell → Cell → Bool
  /-- What ORDER BY sorts by. -/
  precedes : Cell → Cell → Bool
  collate : String → Cell → Option Cell
  prefixed : String → Cell → Option Cell
  infixed : String → Cell → Cell → Option Cell
  function : String → List Cell → Option Cell
  /-- The aggregate function of a name and a number of arguments, if it is one, as a function of
  the arguments in each row. -/
  aggregate? : String → Nat → Option (List (List Cell) → Option Cell)
  /-- SQL that the caller wrote, with its own arguments. -/
  literal : String → Option Arguments → Context Cell → Option Cell
  /-- An aggregate function is called in the text. -/
  literalAggregates : String → Bool
  /-- NULL is the same as NULL only. -/
  isNull_of_same : ∀ a b, same a b = true → isNull a = isNull b

/-- A stored table: the names of its columns, those of the columns that no star gives, and its rows,
by the names. -/
structure StoredTable (Cell : Type) where
  columns : List String
  hidden : List String
  rows : List (String → Cell)

/-- The tables of a database, by name. -/
structure Database (Cell : Type) where
  table? : String → Option (StoredTable Cell)

section Sources

variable {Cell : Type}

/-- A row of a stored table, under the name that it goes by. -/
def StoredTable.binding (table : StoredTable Cell) (name : String) (row : String → Cell) :
    Binding Cell :=
  ⟨some name, table.columns.map fun column => (some column, row column),
    table.hidden.map fun column => (column, row column)⟩

/-- A stored table in a FROM clause. -/
def StoredTable.joined (null : Cell) (table : StoredTable Cell) (name : String) : Joined Cell :=
  ⟨[table.binding name fun _ => null], table.rows.map fun row => [table.binding name row]⟩

/-- The result of a statement in a FROM clause. -/
def Table.joined (null : Cell) (table : Table Cell) (name : Option String) : Joined Cell :=
  ⟨[⟨name, table.names.map fun column => (column, null), []⟩],
    table.rows.map fun row => [⟨name, table.names.zip row, []⟩]⟩

/-- The only column of the result. -/
def Table.column? (table : Table Cell) : Option (List Cell) :=
  if table.names.length = 1 then some table.rows.flatten else none

/-- What a SELECT without a FROM clause reads: one row of no sources. -/
def Joined.unit : Joined Cell := ⟨[], [[]]⟩

end Sources

/-! ## Steps over rows -/

/-- The rows for which the condition holds. -/
def keep {α : Type} (test : α → Option Bool) : List α → Option (List α)
  | [] => some []
  | a :: rest => do
    let holds ← test a
    let kept ← keep test rest
    return if holds then a :: kept else kept

/-- The first of those that are the same. -/
def distinctBy {α : Type} (same : α → α → Bool) : List α → List α
  | [] => []
  | a :: rest => a :: (distinctBy same rest).filter fun b => !same a b

/-- The row among those that are ordered already, behind those that precede it. -/
def insertBy {α : Type} (precedes : α → α → Bool) (a : α) : List α → List α
  | [] => [a]
  | b :: rest => if precedes b a then b :: insertBy precedes a rest else a :: b :: rest

/-- The rows in order; those of which none precedes the other stay as they come. -/
def orderBy {α : Type} (precedes : α → α → Bool) : List α → List α
  | [] => []
  | a :: rest => insertBy precedes a (orderBy precedes rest)

/-- The rows that the limit leaves. -/
def limited {α : Type} (limit : Option Limit) (rows : List α) : List α :=
  match limit with
  | none => rows
  | some ⟨count, offset⟩ => (rows.drop (offset.getD 0)).take count

/-- One more row in the group with its key, or in a group of its own behind the others. -/
def addToGroup {κ α : Type} (same : κ → κ → Bool) (key : κ) (a : α) :
    List (κ × List α) → List (κ × List α)
  | [] => [(key, [a])]
  | (other, members) :: rest =>
    if same other key then (other, members ++ [a]) :: rest
    else (other, members) :: addToGroup same key a rest

/-- The rows in groups by their keys. -/
def groupsBy {κ α : Type} (same : κ → κ → Bool) (rows : List (κ × α)) : List (List α) :=
  (rows.foldl (fun groups row => addToGroup same row.1 row.2 groups) []).map (·.2)

namespace Joined

variable {Cell : Type}

/-- A row beside those of the target that meet the condition. An optional join keeps a row that no
other meets, beside NULLs. -/
def matching (kind : JoinKind) (target : Joined Cell) (on : Frame Cell → Option Bool)
    (row : Frame Cell) : Option (List (Frame Cell)) := do
  let met ← keep (fun other => on (row ++ other)) target.rows
  return if met.isEmpty && decide (kind = .left) then [row ++ target.blank]
    else met.map fun other => row ++ other

/-- The rows of a join. -/
def join (kind : JoinKind) (left target : Joined Cell) (on : Frame Cell → Option Bool) :
    Option (Joined Cell) := do
  return ⟨left.blank ++ target.blank, (← left.rows.mapM (matching kind target on)).flatten⟩

end Joined

namespace Engine

variable {Cell : Type} (engine : Engine Cell)

/-- The rows are the same, cell by cell. -/
def sameRow : List Cell → List Cell → Bool
  | [], [] => true
  | a :: as, b :: bs => engine.same a b && sameRow as bs
  | _, _ => false

/-- Sorting by the keys, each in its direction: the first that differ decide. -/
def keysPrecede : List (Cell × Option Direction) → List (Cell × Option Direction) → Bool
  | (a, direction) :: as, (b, _) :: bs =>
    match direction with
    | some .descending =>
      engine.precedes b a || (!engine.precedes a b && keysPrecede as bs)
    | _ => engine.precedes a b || (!engine.precedes b a && keysPrecede as bs)
  | _, _ => false

/-- A conjunction. One term stands for itself. -/
def conjunction : List Cell → Cell
  | [cell] => cell
  | cells => engine.ofTruth (Truth.all (cells.map engine.truth))

/-- A disjunction. One term stands for itself. -/
def disjunction : List Cell → Cell
  | [cell] => cell
  | cells => engine.ofTruth (Truth.any (cells.map engine.truth))

/-- The cell is equal to one of the others. -/
def member (cell : Cell) (others : List Cell) : Truth := Truth.any (others.map (engine.equal cell))

/-- The cells that are not NULL. -/
def known (cells : List Cell) : List Cell := cells.filter fun cell => !engine.isNull cell

end Engine

end RelationalQuery.Sql
