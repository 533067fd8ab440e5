/-
  RelationalQuery.Select.Rendering — queries as SQL.

  A statement is compiled in two steps: names are chosen for the sources of its FROM clause, and
  then the clauses are written in order with those names. An expression's subquery is a
  statement of its own inside the scope of the first; a FROM clause's subquery shares it.

  Negation is pushed to where SQL has a form for it: `negated` says that the negation of the
  expression is wanted.

  Main definitions:
    * `Expr.render`, `Query.render`, `Source.render` and their companions.
    * `Query.compile`: the statement with its arguments.
-/

import RelationalQuery.Select.Clauses

namespace RelationalQuery

open Fragment

mutual

/-- An expression, or its negation. -/
def Expr.render (scope : Scope) (negated : Bool) : Expr → Rendering
  | .literal sql arguments => .ok (Clauses.negatedIf negated (literal sql arguments))
  | .value v => .ok (Clauses.negatedIf negated (param v))
  | .column none name => .ok (Clauses.negatedIf negated (ident name))
  | .column (some source) name => do
    return Clauses.negatedIf negated (← Clauses.columnOf scope source name)
  | .collate e collation => do
    return Clauses.negatedIf negated (Clauses.collated (← e.render scope false) collation)
  | .not e => e.render scope !negated
  | .equal lhs rhs =>
    Clauses.equality negated lhs rhs (lhs.render scope false) (rhs.render scope false)
  | .notEqual lhs rhs =>
    Clauses.equality (!negated) lhs rhs (lhs.render scope false) (rhs.render scope false)
  | .is lhs rhs =>
    Clauses.identity negated lhs rhs (lhs.render scope false) (rhs.render scope false)
  | .isNot lhs rhs =>
    Clauses.identity (!negated) lhs rhs (lhs.render scope false) (rhs.render scope false)
  | .prefixOp op e => do
    return Clauses.negatedIf negated (single (.prefixOp op) ++ (← e.render scope false))
  | .infixOp op lhs rhs => do
    let left ← lhs.render scope false
    let right ← rhs.render scope false
    return Clauses.negatedIf negated (Clauses.infixed op left right)
  | .and terms => do
    return Clauses.negatedIf negated (Clauses.connective .and "1" (← Expr.renderAll scope terms))
  | .or terms => do
    return Clauses.negatedIf negated (Clauses.connective .or "0" (← Expr.renderAll scope terms))
  | .inList e items =>
    Clauses.listMembership negated (e.render scope false) (Expr.renderAll scope items) items.isEmpty
  | .inQuery e query => do
    let operand ← e.render scope false
    let inner ← scope.enter query.occurrences
    return Clauses.membership negated operand (← query.render inner)
  | .exists query => do
    let inner ← scope.enter query.occurrences
    return Clauses.existence negated (← query.render inner)
  | .between e low high => do
    let operand ← e.render scope false
    let low ← low.render scope false
    let high ← high.render scope false
    return Clauses.negatedIf negated (Clauses.range operand low high)
  | .call function arguments => do
    let arguments ← Expr.renderAll scope arguments
    return Clauses.negatedIf negated (call function (joinWith .comma arguments))
  | .count counted => do
    return Clauses.negatedIf negated (call "COUNT" (← counted.renderCounted scope))
  | .countDistinct e => do
    return Clauses.negatedIf negated
      (call "COUNT" (token .distinct ++ (← e.render scope false)))

/-- Expressions in order. -/
def Expr.renderAll (scope : Scope) : List Expr → Except QueryError (List Fragment)
  | [] => .ok []
  | e :: rest => do
    let first ← e.render scope false
    let rest ← Expr.renderAll scope rest
    return first :: rest

/-- A condition behind its keyword, if there is one. -/
def Expr.renderClause (scope : Scope) (keyword : Token) : Option Expr → Rendering
  | some condition => Clauses.behind keyword (condition.render scope false)
  | none => .ok empty

/-- What a count is of. A star counts rows, whichever occurrence it belongs to. -/
def ResultColumn.renderCounted (scope : Scope) : ResultColumn → Rendering
  | .star source => do
    let _ ← scope.name source "*"
    return token .star
  | .expr e => e.render scope false
  | .aliased e _ => e.render scope false

/-- An entry of a select list. -/
def ResultColumn.render (scope : Scope) : ResultColumn → Rendering
  | .star source => Clauses.starOf scope source
  | .expr e => e.render scope false
  | .aliased e label => do return (← e.render scope false).aliased label

/-- Entries of a select list, in order. -/
def ResultColumn.renderAll (scope : Scope) : List ResultColumn → Except QueryError (List Fragment)
  | [] => .ok []
  | column :: rest => do
    let first ← column.render scope
    let rest ← ResultColumn.renderAll scope rest
    return first :: rest

/-- Entries of an ORDER BY list, in order and with their directions reversed if asked for. -/
def OrderingTerm.renderAll (scope : Scope) (reversed : Bool) :
    List OrderingTerm → Except QueryError (List Fragment)
  | [] => .ok []
  | ⟨e, direction⟩ :: rest => do
    let first ← e.render scope false
    let stated := if reversed then (OrderingTerm.mk e direction).flip.direction else direction
    let rest ← OrderingTerm.renderAll scope reversed rest
    return Clauses.orderingTerm first stated :: rest

/-- A statement, in the scope that names its sources. -/
def Query.render (scope : Scope) : Query → Rendering
  | ⟨selection, distinct, source, filter, groupBy, having, orderings, reversed, limit⟩ => do
    let columns ← Clauses.selectList (Clauses.readsWhole selection source)
      (ResultColumn.renderAll scope selection) (Source.renderColumns scope source)
    let sources ← Source.renderClause scope source
    let rows ← Expr.renderClause scope .where filter
    let groups ← Expr.renderAll scope groupBy
    let groupRows ← Expr.renderClause scope .having having
    let terms ← OrderingTerm.renderAll scope reversed orderings
    return token .select ++ (if distinct then token .distinct else empty) ++ columns ++ sources ++
      rows ++ Clauses.clause [.group, .by] groups ++ groupRows ++
      Clauses.orderClause scope source reversed terms ++ Clauses.limitClause limit

/-- The columns that the joins of a FROM clause add to a select list. -/
def Source.renderColumns (scope : Scope) : Option Source → Except QueryError (List Fragment)
  | some (.joinTree _ _ joins) => Join.renderColumns scope joins
  | _ => .ok []

/-- The FROM clause, if there is one. -/
def Source.renderClause (scope : Scope) : Option Source → Rendering
  | some source => Clauses.behind .from (source.render scope)
  | none => .ok empty

/-- The columns that joins add to a select list. -/
def Join.renderColumns (scope : Scope) : List Join → Except QueryError (List Fragment)
  | [] => .ok []
  | ⟨included, _, ⟨_, target, _, _, selection, joins⟩⟩ :: rest => do
    let own ← if included then ResultColumn.renderAll scope (selection target.id) else .ok []
    let nested ← Join.renderColumns scope joins
    let rest ← Join.renderColumns scope rest
    return own ++ nested ++ rest

/-- A source in a FROM clause. -/
def Source.render (scope : Scope) : Source → Rendering
  | .table id table _ => .ok (Clauses.tableSource table (scope.name? id))
  | .subquery id query _ => do
    return Clauses.querySource (← query.render scope) (scope.name? id)
  | .joinTree _ left joins => do
    let source ← left.render scope
    return source ++ (← Join.renderAll scope (Clauses.anchor left) false joins)

/-- Joins behind the source that `left` anchors, each followed by the joins of its own target.
Below an optional join, required ones are refused. -/
def Join.renderAll (scope : Scope) (left : Clauses.Anchor) (afterOptional : Bool) :
    List Join → Rendering
  | [] => .ok empty
  | ⟨_, kind, ⟨name, target, mapping, condition, _, joins⟩⟩ :: rest => do
    Clauses.checkRequired afterOptional kind name
    Clauses.checkMapping scope.schema left (Clauses.anchor target) mapping
    let source ← target.render scope
    let joined ← Clauses.onClause kind (Clauses.mappingTerms scope left.id target.id mapping)
      (Expr.renderAll scope (condition left.id target.id))
    let nested ← Join.renderAll scope (Clauses.anchor target)
      (afterOptional || decide (kind = .left)) joins
    let rest ← Join.renderAll scope left afterOptional rest
    return Clauses.joinKeyword kind ++ source ++ joined ++ nested ++ rest

end

/-! ## Statements that stand alone -/

namespace Query

/-- The statement as a fragment, its sources named. -/
def fragment (schema : Schema) (q : Query) : Rendering := do
  q.render (← (Scope.outermost schema).enter q.occurrences)

/-- The statement with its arguments. -/
def compile (schema : Schema) (q : Query) : Except QueryError BoundSql := do
  (← q.fragment schema).build

end Query

end RelationalQuery
