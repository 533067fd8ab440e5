/-
  RelationalQuery.Select.Basic — expressions, queries, sources and relations.

  The syntax is one family of trees. A query reads a source; a source is a table, a query in
  parentheses, or a source with relations joined to it; a relation says how its target joins
  to whatever stands on its left, by conditions that are expressions; and expressions hold
  queries.

  Every source has the id of one *occurrence* in a statement. Column references and stars name
  occurrences, not tables, so a table may be read many times without confusion; the names that
  stand for the occurrences in SQL are chosen when a statement is compiled.

  Main definitions:
    * `SourceId`, `Alias`, `JoinKind`, `Limit`: the leaves.
    * `Expr`, `ResultColumn`, `OrderingTerm`, `Query`, `Source`, `Relation`, `Join`: the trees.
-/

import RelationalQuery.Arguments

namespace RelationalQuery

/-! ## Leaves -/

/-- One occurrence of a source in a statement. -/
structure SourceId where
  index : Nat
deriving DecidableEq, Repr, Inhabited

/-- The name given to a source. An explicit alias is kept as written; any other may be numbered
when names collide. -/
structure Alias where
  name : String
  explicit : Bool
deriving DecidableEq, Repr

/-- How a relation is joined to what stands on its left. -/
inductive JoinKind where
  | inner
  | left
  | cross
deriving DecidableEq, Repr

/-- The greatest number of rows, and how many to skip before them. -/
structure Limit where
  count : Nat
  offset : Option Nat
deriving DecidableEq, Repr

/-- The direction that an ordering term states. -/
inductive Direction where
  | ascending
  | descending
deriving DecidableEq, Repr

/-! ## Trees -/

mutual

/-- A scalar expression. -/
inductive Expr where
  /-- SQL that the caller wrote, with its own arguments. -/
  | literal (sql : String) (arguments : Option Arguments)
  /-- A bound value. -/
  | value (v : Value)
  /-- A column, of one occurrence of a source or of whichever source has it. -/
  | column (source : Option SourceId) (name : String)
  | collate (e : Expr) (collation : String)
  | not (e : Expr)
  | equal (lhs rhs : Expr)
  | notEqual (lhs rhs : Expr)
  | is (lhs rhs : Expr)
  | isNot (lhs rhs : Expr)
  | prefixOp (op : String) (e : Expr)
  | infixOp (op : String) (lhs rhs : Expr)
  | and (terms : List Expr)
  | or (terms : List Expr)
  | inList (e : Expr) (items : List Expr)
  | inQuery (e : Expr) (query : Query)
  | exists (query : Query)
  | between (e low high : Expr)
  | call (function : String) (arguments : List Expr)
  | count (counted : ResultColumn)
  | countDistinct (e : Expr)

/-- An entry of a select list. -/
inductive ResultColumn where
  /-- All columns of an occurrence. -/
  | star (source : SourceId)
  | expr (e : Expr)
  | aliased (e : Expr) (label : String)

/-- An entry of an ORDER BY list. Without a direction it is ascending and says so by silence. -/
structure OrderingTerm where
  expr : Expr
  direction : Option Direction

/-- A SELECT statement. -/
structure Query where
  selection : List ResultColumn
  distinct : Bool
  source : Option Source
  filter : Option Expr
  groupBy : List Expr
  having : Option Expr
  orderings : List OrderingTerm
  reversed : Bool
  limit : Option Limit

/-- What a FROM clause reads. -/
inductive Source where
  | table (id : SourceId) (table : String) (label : Option Alias)
  | subquery (id : SourceId) (query : Query) (label : Option Alias)
  /-- A source followed by relations joined to it. -/
  | joinTree (id : SourceId) (left : Source) (joins : List Join)

/-- How a target joins to whatever source stands on its left, and what hangs on the target. -/
structure Relation where
  /-- The logical name, which no alias changes. -/
  name : String
  target : Source
  /-- Pairs of a column on the left and the column of the target that equals it. -/
  mapping : List (String × String)
  /-- Further conjuncts of the join condition, given the source on the left and the target. -/
  condition : SourceId → SourceId → List Expr
  /-- The columns that an included relation adds to the select list, given the target. -/
  selection : SourceId → List ResultColumn
  joins : List Join

/-- A relation in its place. An included one adds its columns to the result. -/
structure Join where
  included : Bool
  kind : JoinKind
  relation : Relation

end

instance : Inhabited Expr := ⟨.value .null⟩

end RelationalQuery
