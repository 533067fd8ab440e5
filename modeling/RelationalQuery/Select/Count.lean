/-
  RelationalQuery.Select.Count — the query that counts the rows of another.

  A query over a single table that neither groups nor limits its rows is counted in place, by
  another select list over the same clauses. Every other query is counted from outside, as the
  source of the counting query. Ordering never affects a count and is dropped.

  Main definitions:
    * `Query.countQuery`: the counting query.
-/

import RelationalQuery.Select.Query

namespace RelationalQuery.Query

/-- The query without its ordering. -/
def unordered (q : Query) : Query := { q with orderings := [], reversed := false }

/-- The select list that counts the rows of an occurrence. -/
def countRows (source : SourceId) : List ResultColumn := [.expr (.count (.star source))]

/-- Counts rows over the same clauses. -/
def countInPlace (q : Query) (table : SourceId) : Query :=
  { q with distinct := false, selection := countRows table }

/-- Counts distinct values of an expression over the same clauses. -/
def countDistinctInPlace (q : Query) (e : Expr) : Query :=
  { q with distinct := false, selection := [.expr (.countDistinct e)] }

/-- Counts the rows of the query from outside. -/
def countFromOutside (q : Query) : Supply Query := do
  let source ← Source.ofQuery q none
  return { empty with selection := countRows source.id, source := some source }

/-- The table that the query reads, if that is all it reads. -/
def table? (q : Query) : Option SourceId :=
  match q.source with
  | some (.table id _ _) => some id
  | _ => none

/-- The rows of the query are neither grouped nor limited. -/
def keepsRows (q : Query) : Bool := q.groupBy.isEmpty && q.limit.isNone

/-- The counting query over the same clauses, for the select lists that have one. -/
def countInPlace? (q : Query) (table : SourceId) : Option Query :=
  match q.selection with
  | [] => none
  | [.star id] => if id = table ∧ !q.distinct then some (q.countInPlace table) else none
  | [.expr e] | [.aliased e _] =>
    some (if q.distinct then q.countDistinctInPlace e else q.countInPlace table)
  | _ => if q.distinct then none else some (q.countInPlace table)

/-- A query that returns the number of rows of this one. -/
def countQuery (q : Query) : Supply Query :=
  let plain := q.unordered
  let inPlace := if plain.keepsRows then plain.table?.bind plain.countInPlace? else none
  match inPlace with
  | some counting => return counting
  | none => plain.countFromOutside

end RelationalQuery.Query
