/-
  RelationalQuery.Select.Query — building queries.

  A query is a value: each operation gives the query with one clause more, replaced or
  extended. Conditions accumulate by conjunction, lists are replaced, and attached relations
  are forked, so that one relation can be attached to many queries.

  Main definitions:
    * `Query.table`, `Query.ofSource`, `Query.ofQuery`, `Query.empty`: construction.
    * One operation per clause.
    * `Query.root?`, `Query.relation?`: references into the query.
    * `Query.emitted`: the whole select list, that of attached relations included.
-/

import RelationalQuery.Select.Relation

namespace RelationalQuery

/-! ## What attached relations select -/

mutual

/-- The columns that joins add to a select list, depth first. Included relations count even
below one that is only joined. -/
def Join.emittedAll : List Join → List ResultColumn
  | [] => []
  | ⟨included, _, relation⟩ :: rest => relation.emitted included ++ Join.emittedAll rest

/-- The columns that a relation and those below it add to a select list. -/
def Relation.emitted (included : Bool) : Relation → List ResultColumn
  | ⟨_, target, _, _, selection, joins⟩ =>
    (if included then selection target.id else []) ++ Join.emittedAll joins

end

/-- The columns that the relations of a FROM clause add to its select list. -/
def Source.relationColumns (s : Source) : List ResultColumn := Join.emittedAll s.joins

namespace Query

/-! ## Construction -/

/-- The query without any clause. -/
def empty : Query where
  selection := []
  distinct := false
  source := none
  filter := none
  groupBy := []
  having := none
  orderings := []
  reversed := false
  limit := none

instance : Inhabited Query := ⟨empty⟩

/-- Selects all columns of the root of a source. -/
def ofSource (source : Source) : Query :=
  { empty with selection := [.star source.root.id], source := some source }

/-- Selects all columns of a table. -/
def table (name : String) : Supply Query := do
  return ofSource (← Source.ofTable name)

/-- Selects all columns of another query. -/
def ofQuery (query : Query) (label : Option String) : Supply Query := do
  return ofSource (← Source.ofQuery query (label.map .given))

/-! ## Clauses -/

/-- Names the root source, as written. -/
def aliased (q : Query) (name : String) : Query :=
  { q with source := q.source.map (·.setAlias (.given name)) }

/-- Replaces the select list. -/
def select (q : Query) (selection : List ResultColumn) : Query := { q with selection }

/-- Drops repeated rows. -/
def dedup (q : Query) : Query := { q with distinct := true }

/-- A condition together with an earlier one. -/
def conjoin (earlier : Option Expr) (condition : Expr) : Option Expr :=
  match earlier with
  | some e => some (.all [e, condition])
  | none => some condition

/-- Adds a condition on rows. -/
def restrict (q : Query) (condition : Expr) : Query :=
  { q with filter := conjoin q.filter condition }

/-- Adds a condition on rows that the caller wrote in SQL. -/
def restrictSql (q : Query) (sql : String) (arguments : Arguments) : Query :=
  q.restrict (.literal sql (some arguments))

/-- Replaces the grouping. -/
def group (q : Query) (keys : List Expr) : Query := { q with groupBy := keys }

/-- Adds a condition on groups. -/
def restrictGroups (q : Query) (condition : Expr) : Query :=
  { q with having := conjoin q.having condition }

/-- Replaces the ordering, and takes back a reversal. -/
def order (q : Query) (orderings : List OrderingTerm) : Query :=
  { q with orderings, reversed := false }

/-- Reverses the ordering. -/
def reverse (q : Query) : Query := { q with reversed := !q.reversed }

/-- Replaces the limit. -/
def take (q : Query) (count : Nat) (offset : Option Nat) : Query :=
  { q with limit := some ⟨count, offset⟩ }

/-! ## Relations -/

/-- Joins forks of relations to the source; without a source nothing happens. -/
def attach (q : Query) (kind : JoinKind) (included : Bool) (relations : List Relation) :
    Supply Query := do
  match q.source with
  | none => return q
  | some source =>
    let joins ← Join.ofRelations kind included relations
    return { q with source := some (← source.attach joins) }

/-- Attaches optional relations whose columns are selected. -/
def includeOptional (q : Query) : List Relation → Supply Query := q.attach .left true

/-- Attaches required relations whose columns are selected. -/
def includeRequired (q : Query) : List Relation → Supply Query := q.attach .inner true

/-- Attaches optional relations whose columns are not selected. -/
def joinOptional (q : Query) : List Relation → Supply Query := q.attach .left false

/-- Attaches required relations whose columns are not selected. -/
def joinRequired (q : Query) : List Relation → Supply Query := q.attach .inner false

/-! ## References into the query -/

/-- The leftmost leaf of the source. -/
def root? (q : Query) : Option SourceId := q.source.map (·.root.id)

/-- A column of the root, or of whichever source has it when there is no root. -/
def column (q : Query) (name : String) : Expr := .column q.root? name

/-- The target of an attached relation, by its logical name. -/
def relation? (q : Query) (name : String) : Option SourceId := do
  let source ← q.source
  let relation ← Join.findRelation? name source.joins
  return relation.target.id

/-- The expression is one of the rows of the query. -/
def contains (q : Query) (e : Expr) : Expr := .inQuery e q

/-- The query has a row. -/
def hasRows (q : Query) : Expr := .exists q

/-! ## The whole select list -/

/-- The columns that attached relations add. -/
def relationColumns (q : Query) : List ResultColumn :=
  (q.source.map (·.relationColumns)).getD []

/-- The select list, with the columns that attached relations add. -/
def emitted (q : Query) : List ResultColumn := q.selection ++ q.relationColumns

end Query

end RelationalQuery
