/-
  RelationalQuery.Proofs.Statement.Tree — statements as trees of what is written.

  A fragment is flat, so it does not say which name stands for which source. The tree of a
  statement does: every name in front of a column is kept with the occurrence that it is written
  for, and every source of a FROM clause with the name that the clause introduces for it. Writing
  the tree out forgets the occurrences.

  Main definitions:
    * `Sql.Reference`: a written name and the occurrence behind it.
    * `Sql.Term`, `Sql.Item`, `Sql.Statement`, `Sql.From`: the trees.
    * `Sql.Statement.write`: the fragment of a statement.
-/

import RelationalQuery.Select.Clauses

namespace RelationalQuery.Sql

open Fragment

/-! ## Trees -/

/-- The name in front of a column or a star, and the occurrence that it is written for. -/
structure Reference where
  source : SourceId
  qualifier : Option String
deriving DecidableEq

/-- How two operands are compared. -/
inductive Comparison where
  | equal
  | notEqual
  | is
  | isNot
deriving DecidableEq

/-- An equality in a join condition, between a column of the target and one of the left source. -/
structure Equality where
  target : Reference
  targetColumn : String
  left : Reference
  leftColumn : String
deriving DecidableEq

mutual

/-- A scalar expression. -/
inductive Term where
  | literal (sql : String) (arguments : Option Arguments)
  | value (v : Value)
  | constant (text : String)
  | column (source : Option Reference) (name : String)
  | collate (t : Term) (collation : String)
  | negation (t : Term)
  | comparison (how : Comparison) (lhs rhs : Term)
  | nullTest (negated : Bool) (t : Term)
  | prefixOp (op : String) (t : Term)
  | infixOp (op : String) (lhs rhs : Term)
  | and (terms : List Term)
  | or (terms : List Term)
  | inList (negated : Bool) (t : Term) (items : List Term)
  | inQuery (negated : Bool) (t : Term) (query : Statement)
  | exists (negated : Bool) (query : Statement)
  | between (t low high : Term)
  | call (function : String) (arguments : List Term)
  /-- COUNT of the rows of an occurrence, which is not named. -/
  | countRows (source : SourceId)
  | count (t : Term)
  | countDistinct (t : Term)

/-- An entry of a select list. -/
inductive Item where
  /-- All columns of the FROM clause. -/
  | everything
  | star (source : Reference)
  | term (t : Term)
  | aliased (t : Term) (label : String)

/-- An entry of an ORDER BY list. -/
inductive SortTerm where
  | term (t : Term) (direction : Option Direction)
  /-- The row ids of a table, descending. -/
  | rowIds (table : Reference)

/-- A SELECT statement. The entries that joined relations add stand behind its own. -/
structure Statement where
  distinct : Bool
  items : List Item
  added : List Item
  source : Option From
  filter : Option Term
  groupBy : List Term
  having : Option Term
  orderings : List SortTerm
  limit : Option Limit

/-- What a FROM clause reads. -/
inductive From where
  | table (occurrence : Occurrence) (table : String) (name : Option String)
  | query (occurrence : Occurrence) (statement : Statement) (name : Option String)
  | joined (left : From) (joins : List JoinClause)

/-- One joined source, with the equalities of its mapping and its further conditions. -/
structure JoinClause where
  kind : JoinKind
  target : From
  mapped : List Equality
  own : List Term

end

/-! ## Writing -/

/-- The mark between the operands. -/
def Comparison.mark : Comparison → Fragment
  | .equal => token .equal
  | .notEqual => token .notEqual
  | .is => token .is ++ Clauses.notIf false
  | .isNot => token .is ++ Clauses.notIf true

/-- A column, or the like, of the occurrence. -/
def Reference.write (r : Reference) (column : Fragment) : Fragment :=
  Clauses.qualified r.qualifier column

/-- An equality of a mapping, with the target's column first. -/
def Equality.write (e : Equality) : Fragment :=
  e.target.write (ident e.targetColumn) ++ token .equal ++ e.left.write (ident e.leftColumn)

/-- The ON clause of a join, from its terms. -/
def onClause (kind : JoinKind) (terms : List Fragment) : Fragment :=
  match kind with
  | .cross => empty
  | _ => if terms.isEmpty then empty else token .on ++ joinWith .and terms

mutual

/-- A term as SQL. -/
def Term.write : Term → Fragment
  | .literal sql arguments => Fragment.literal sql arguments
  | .value v => param v
  | .constant text => raw text
  | .column none name => ident name
  | .column (some r) name => r.write (ident name)
  | .collate t collation => Clauses.collated t.write collation
  | .negation t => (token .not ++ t.write).parens
  | .comparison how lhs rhs => (lhs.write ++ how.mark ++ rhs.write).parens
  | .nullTest negated t => Clauses.nullTest negated t.write
  | .prefixOp op t => single (.prefixOp op) ++ t.write
  | .infixOp op lhs rhs => Clauses.infixed op lhs.write rhs.write
  | .and terms => Clauses.connective .and "1" (Term.writeAll terms)
  | .or terms => Clauses.connective .or "0" (Term.writeAll terms)
  | .inList negated t items =>
    Clauses.membership negated t.write (joinWith .comma (Term.writeAll items))
  | .inQuery negated t query => Clauses.membership negated t.write query.write
  | .exists negated query => Clauses.existence negated query.write
  | .between t low high => Clauses.range t.write low.write high.write
  | .call function arguments => Fragment.call function (joinWith .comma (Term.writeAll arguments))
  | .countRows _ => Fragment.call "COUNT" (token .star)
  | .count t => Fragment.call "COUNT" t.write
  | .countDistinct t => Fragment.call "COUNT" (token .distinct ++ t.write)

/-- Each term of a list as SQL. -/
def Term.writeAll : List Term → List Fragment
  | [] => []
  | t :: rest => t.write :: Term.writeAll rest

/-- A condition behind its keyword, if there is one. -/
def Term.writeClause (keyword : Token) : Option Term → Fragment
  | some t => token keyword ++ t.write
  | none => empty

/-- An entry of a select list as SQL. -/
def Item.write : Item → Fragment
  | .everything => token .star
  | .star r => r.write (token .star)
  | .term t => t.write
  | .aliased t label => t.write.aliased label

/-- Each entry of a select list as SQL. -/
def Item.writeAll : List Item → List Fragment
  | [] => []
  | item :: rest => item.write :: Item.writeAll rest

/-- Each term of an ordering as SQL. -/
def SortTerm.writeAll : List SortTerm → List Fragment
  | [] => []
  | .term t direction :: rest => Clauses.orderingTerm t.write direction :: SortTerm.writeAll rest
  | .rowIds r :: rest => (r.write (raw "_rowid_") ++ token .desc) :: SortTerm.writeAll rest

/-- The fragment of a statement, its clauses in order. -/
def Statement.write : Statement → Fragment
  | ⟨distinct, items, added, source, filter, groupBy, having, orderings, limit⟩ =>
    token .select ++ (if distinct then token .distinct else empty) ++
      joinWith .comma (Item.writeAll items ++ Item.writeAll added) ++ From.writeClause source ++
      Term.writeClause .where filter ++ Clauses.clause [.group, .by] (Term.writeAll groupBy) ++
      Term.writeClause .having having ++
      Clauses.clause [.order, .by] (SortTerm.writeAll orderings) ++ Clauses.limitClause limit

/-- A source as SQL, with the joins on it. -/
def From.write : From → Fragment
  | .table _ table name => Clauses.tableSource table name
  | .query _ statement name => Clauses.querySource statement.write name
  | .joined left joins => left.write ++ JoinClause.writeAll joins

/-- The FROM clause, if there is one. -/
def From.writeClause : Option From → Fragment
  | some source => token .from ++ source.write
  | none => empty

/-- Joined sources one behind the other. -/
def JoinClause.writeAll : List JoinClause → Fragment
  | [] => empty
  | ⟨kind, target, mapped, own⟩ :: rest =>
    Clauses.joinKeyword kind ++ target.write ++
      onClause kind (mapped.map Equality.write ++ Term.writeAll own) ++ JoinClause.writeAll rest

end

end RelationalQuery.Sql
