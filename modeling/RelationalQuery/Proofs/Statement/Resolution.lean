/-
  RelationalQuery.Proofs.Statement.Resolution — the tree of a query's statement.

  Resolution walks a query as rendering does: it makes the same checks in the same order, chooses
  the same forms, and looks up the same names. But it gives the statement as a tree, in which
  the names are still tied to occurrences.

  Main definitions:
    * `Query.resolve` and its companions: the tree, in a scope.
    * `Query.statement`: the tree of a statement that stands alone.
-/

import RelationalQuery.Proofs.Statement.Tree
import RelationalQuery.Select.Rendering

namespace RelationalQuery

/-! ## Resolution -/

namespace Sql

/-- The term, or its negation in the form that every term has. -/
def Term.negatedIf (negated : Bool) (t : Term) : Term := if negated then .negation t else t

/-- Two compared operands; with a NULL constant on either side, a test of the other for NULL. -/
def Term.compared (how : Comparison) (negated : Bool) (lhs rhs : Expr)
    (left right : Except QueryError Term) : Except QueryError Term :=
  if rhs.isNullValue then Term.nullTest negated <$> left
  else if lhs.isNullValue then Term.nullTest negated <$> right
  else do return .comparison how (← left) (← right)

/-- Equality, or difference. -/
def Comparison.ofEquality (negated : Bool) : Comparison := if negated then .notEqual else .equal

/-- Identity, or its negation. -/
def Comparison.ofIdentity (negated : Bool) : Comparison := if negated then .isNot else .is

/-- A source by its name in the scope. -/
def Reference.resolve (scope : Scope) (source : SourceId) (column : String) :
    Except QueryError Reference := do
  return ⟨source, ← scope.name source column⟩

/-- One equality for each pair of a mapping. -/
def Equality.resolveAll (scope : Scope) (left target : SourceId) :
    List (String × String) → Except QueryError (List Equality)
  | [] => .ok []
  | (leftColumn, targetColumn) :: rest => do
    let targetRef ← Reference.resolve scope target targetColumn
    let leftRef ← Reference.resolve scope left leftColumn
    let rest ← Equality.resolveAll scope left target rest
    return ⟨targetRef, targetColumn, leftRef, leftColumn⟩ :: rest

/-- The terms of a join condition; a cross join has none. -/
def conditionOf (kind : JoinKind) (mapped : Except QueryError (List Equality))
    (own : Except QueryError (List Term)) : Except QueryError (List Equality × List Term) :=
  match kind with
  | .cross => .ok ([], [])
  | _ => do return (← mapped, ← own)

/-- The entries of a select list: everything, or its own and those of joined relations. -/
def itemsOf (whole : Bool) (own added : Except QueryError (List Item)) :
    Except QueryError (List Item × List Item) :=
  if whole then .ok ([.everything], []) else do return (← own, ← added)

/-- The ordering by row ids that reverses a table at the root. -/
def SortTerm.reverseRowIds (scope : Scope) (source : Option Source) : List SortTerm :=
  match source.map Source.root with
  | some (.table id _ _) => [.rowIds ⟨id, scope.name? id⟩]
  | _ => []

end Sql

open Sql

mutual

/-- An expression, or its negation, as a term. -/
def Expr.resolve (scope : Scope) (negated : Bool) : Expr → Except QueryError Term
  | .literal sql arguments => .ok (.negatedIf negated (.literal sql arguments))
  | .value v => .ok (.negatedIf negated (.value v))
  | .column none name => .ok (.negatedIf negated (.column none name))
  | .column (some source) name => do
    return .negatedIf negated (.column (some (← Reference.resolve scope source name)) name)
  | .collate e collation => do
    return .negatedIf negated (.collate (← e.resolve scope false) collation)
  | .not e => e.resolve scope !negated
  | .equal lhs rhs =>
    Term.compared (.ofEquality negated) negated lhs rhs
      (lhs.resolve scope false) (rhs.resolve scope false)
  | .notEqual lhs rhs =>
    Term.compared (.ofEquality !negated) (!negated) lhs rhs
      (lhs.resolve scope false) (rhs.resolve scope false)
  | .is lhs rhs =>
    Term.compared (.ofIdentity negated) negated lhs rhs
      (lhs.resolve scope false) (rhs.resolve scope false)
  | .isNot lhs rhs =>
    Term.compared (.ofIdentity !negated) (!negated) lhs rhs
      (lhs.resolve scope false) (rhs.resolve scope false)
  | .prefixOp op e => do
    return .negatedIf negated (.prefixOp op (← e.resolve scope false))
  | .infixOp op lhs rhs => do
    let left ← lhs.resolve scope false
    let right ← rhs.resolve scope false
    return .negatedIf negated (.infixOp op left right)
  | .and terms => do
    return .negatedIf negated (.and (← Expr.resolveAll scope terms))
  | .or terms => do
    return .negatedIf negated (.or (← Expr.resolveAll scope terms))
  | .inList e items =>
    if items.isEmpty then .ok (.constant (if negated then "1" else "0"))
    else do return .inList negated (← e.resolve scope false) (← Expr.resolveAll scope items)
  | .inQuery e query => do
    let operand ← e.resolve scope false
    let inner ← scope.enter query.occurrences
    return .inQuery negated operand (← query.resolve inner)
  | .exists query => do
    let inner ← scope.enter query.occurrences
    return .exists negated (← query.resolve inner)
  | .between e low high => do
    let operand ← e.resolve scope false
    let low ← low.resolve scope false
    let high ← high.resolve scope false
    return .negatedIf negated (.between operand low high)
  | .call function arguments => do
    return .negatedIf negated (.call function (← Expr.resolveAll scope arguments))
  | .count counted => do
    return .negatedIf negated (← counted.resolveCounted scope)
  | .countDistinct e => do
    return .negatedIf negated (.countDistinct (← e.resolve scope false))

/-- Expressions in order. -/
def Expr.resolveAll (scope : Scope) : List Expr → Except QueryError (List Term)
  | [] => .ok []
  | e :: rest => do
    let first ← e.resolve scope false
    let rest ← Expr.resolveAll scope rest
    return first :: rest

/-- A condition, if there is one. -/
def Expr.resolveClause (scope : Scope) : Option Expr → Except QueryError (Option Term)
  | some condition => some <$> condition.resolve scope false
  | none => .ok none

/-- A count, of rows or of an expression. -/
def ResultColumn.resolveCounted (scope : Scope) : ResultColumn → Except QueryError Term
  | .star source => do
    let _ ← scope.name source "*"
    return .countRows source
  | .expr e => do return .count (← e.resolve scope false)
  | .aliased e _ => do return .count (← e.resolve scope false)

/-- An entry of a select list. -/
def ResultColumn.resolve (scope : Scope) : ResultColumn → Except QueryError Item
  | .star source => do return .star (← Reference.resolve scope source "*")
  | .expr e => do return .term (← e.resolve scope false)
  | .aliased e label => do return .aliased (← e.resolve scope false) label

/-- Entries of a select list, in order. -/
def ResultColumn.resolveAll (scope : Scope) :
    List ResultColumn → Except QueryError (List Item)
  | [] => .ok []
  | column :: rest => do
    let first ← column.resolve scope
    let rest ← ResultColumn.resolveAll scope rest
    return first :: rest

/-- Entries of an ORDER BY list, in order and with their directions reversed if asked for. -/
def OrderingTerm.resolveAll (scope : Scope) (reversed : Bool) :
    List OrderingTerm → Except QueryError (List SortTerm)
  | [] => .ok []
  | ⟨e, direction⟩ :: rest => do
    let first ← e.resolve scope false
    let stated := if reversed then (OrderingTerm.mk e direction).flip.direction else direction
    let rest ← OrderingTerm.resolveAll scope reversed rest
    return .term first stated :: rest

/-- A statement, in the scope that names its sources. -/
def Query.resolve (scope : Scope) : Query → Except QueryError Statement
  | ⟨selection, distinct, source, filter, groupBy, having, orderings, reversed, limit⟩ => do
    let columns ← itemsOf (Clauses.readsWhole selection source)
      (ResultColumn.resolveAll scope selection) (Source.resolveColumns scope source)
    let clause ← Source.resolveClause scope source
    let rows ← Expr.resolveClause scope filter
    let groups ← Expr.resolveAll scope groupBy
    let groupRows ← Expr.resolveClause scope having
    let terms ← OrderingTerm.resolveAll scope reversed orderings
    return { distinct, limit
             items := columns.1
             added := columns.2
             source := clause
             filter := rows
             groupBy := groups
             having := groupRows
             orderings :=
               if terms.isEmpty && reversed then SortTerm.reverseRowIds scope source else terms }

/-- The columns that the joins of a FROM clause add to a select list. -/
def Source.resolveColumns (scope : Scope) : Option Source → Except QueryError (List Item)
  | some (.joinTree _ _ joins) => Join.resolveColumns scope joins
  | _ => .ok []

/-- The FROM clause, if there is one. -/
def Source.resolveClause (scope : Scope) : Option Source → Except QueryError (Option From)
  | some source => some <$> source.resolve scope
  | none => .ok none

/-- The columns that joins add to a select list. -/
def Join.resolveColumns (scope : Scope) : List Join → Except QueryError (List Item)
  | [] => .ok []
  | ⟨included, _, ⟨_, target, _, _, selection, joins⟩⟩ :: rest => do
    let own ← (if included then ResultColumn.resolveAll scope (selection target.id) else .ok [])
    let nested ← Join.resolveColumns scope joins
    let rest ← Join.resolveColumns scope rest
    return own ++ nested ++ rest

/-- A source in a FROM clause. -/
def Source.resolve (scope : Scope) : Source → Except QueryError From
  | .table id table label =>
    .ok (.table (Source.table id table label).occurrence table (scope.name? id))
  | .subquery id query label => do
    return .query (Source.subquery id query label).occurrence (← query.resolve scope)
      (scope.name? id)
  | .joinTree _ left joins => do
    let source ← left.resolve scope
    return .joined source (← Join.resolveAll scope (Clauses.anchor left) false joins)

/-- Joins behind the source that `left` anchors, each followed by the joins of its own target. -/
def Join.resolveAll (scope : Scope) (left : Clauses.Anchor) (afterOptional : Bool) :
    List Join → Except QueryError (List JoinClause)
  | [] => .ok []
  | ⟨_, kind, ⟨name, target, mapping, condition, _, joins⟩⟩ :: rest => do
    Clauses.checkRequired afterOptional kind name
    Clauses.checkMapping scope.schema left (Clauses.anchor target) mapping
    let source ← target.resolve scope
    let on ← conditionOf kind (Equality.resolveAll scope left.id target.id mapping)
      (Expr.resolveAll scope (condition left.id target.id))
    let nested ← Join.resolveAll scope (Clauses.anchor target)
      (afterOptional || decide (kind = .left)) joins
    let rest ← Join.resolveAll scope left afterOptional rest
    return ⟨kind, source, on.1, on.2⟩ :: nested ++ rest

end

/-- The tree of a statement that stands alone, its sources named. -/
def Query.statement (schema : Schema) (q : Query) : Except QueryError Statement := do
  q.resolve (← (Scope.outermost schema).enter q.occurrences)

end RelationalQuery
