/-
  RelationalQuery.Proofs.Execution.Semantics — the rows that a written statement returns.

  The evaluation follows the tree of a statement and reads of it what is written: names, never the
  occurrences that they were written for. The clauses take effect in the order of SQL: the sources
  are joined, the rows filtered and grouped, the groups filtered; then each row or group gives the
  cells of the select list and its sort keys, repeated rows are dropped, and the rest is ordered
  and limited.

  A statement is grouped if it says so by GROUP BY or by HAVING, or if its select list calls an
  aggregate function. Without GROUP BY all rows are one group, even if there are none. An aggregate
  belongs to the statement that it stands in. Columns of a group, outside aggregates, are those of
  its first row.

  Main definitions:
    * `Sql.Term.aggregates`, `Sql.grouped`: which statements are grouped.
    * `Sql.Term.eval`, `Sql.Statement.eval`, `Sql.From.eval`: the evaluation.
    * `Sql.Statement.run`: the result of a statement that stands alone.
-/

import RelationalQuery.Proofs.Execution.Engine
import RelationalQuery.Proofs.Statement.Tree

namespace RelationalQuery.Sql

section

variable {Cell : Type} (engine : Engine Cell)

/-! ## Aggregates -/

mutual

/-- An aggregate function is called, outside nested statements. -/
def Term.aggregates : Term → Bool
  | .literal sql _ => engine.literalAggregates sql
  | .value _ | .constant _ | .column _ _ | .exists _ _ => false
  | .collate t _ | .negation t | .nullTest _ t | .prefixOp _ t | .inQuery _ t _ => t.aggregates
  | .comparison _ lhs rhs | .infixOp _ lhs rhs => lhs.aggregates || rhs.aggregates
  | .and terms | .or terms => Term.anyAggregates terms
  | .inList _ t items => t.aggregates || Term.anyAggregates items
  | .between t low high => t.aggregates || low.aggregates || high.aggregates
  | .call function arguments =>
    (engine.aggregate? function arguments.length).isSome || Term.anyAggregates arguments
  | .countRows _ | .count _ | .countDistinct _ => true

def Term.anyAggregates : List Term → Bool
  | [] => false
  | t :: rest => t.aggregates || Term.anyAggregates rest

end

def Item.aggregates : Item → Bool
  | .everything | .star _ => false
  | .term t | .aliased t _ => t.aggregates engine

/-- The rows are grouped. -/
def grouped (items : List Item) (groupBy : List Term) (having : Option Term) : Bool :=
  !groupBy.isEmpty || having.isSome || items.any (Item.aggregates engine)

/-- The rows of the statement are grouped. -/
def Statement.grouped (s : Statement) : Bool :=
  Sql.grouped engine (s.items ++ s.added) s.groupBy s.having

/-! ## Select lists -/

/-- The names of the columns that an entry gives. -/
def Item.names (blank : Frame Cell) : Item → List (Option String)
  | .everything => blank.flatMap fun b => b.columns.map (·.1)
  | .star r => (((Frame.star r.qualifier blank).getD [])).map (·.1)
  | .term (.column _ name) => [some name]
  | .term _ => [none]
  | .aliased _ label => [some label]

/-- The entries of an ORDER BY list that name a column of the result. -/
def labelled (output : List (Option String × Cell)) (name : String) : Option Cell :=
  (output.find? fun p => p.1.any fun own => decide (Identifier.Same own name)).map (·.2)

/-! ## Groups and results -/

/-- A context for each group of the rows that the filter leaves: all of them, or those of one
key. -/
def groupContexts (outer : List (Frame Cell)) (blank : Frame Cell) (whole : Bool)
    (rows : List (List Cell × Frame Cell)) : List (Context Cell) :=
  (if whole then [rows.map (·.2)] else groupsBy engine.sameRow rows).map fun members =>
    ⟨members.headD blank :: outer, some members⟩

/-- A row of the result with the keys that it is sorted by. -/
structure Result (Cell : Type) where
  cells : List Cell
  keys : List (Cell × Option Direction)

/-- The rows of the result, from those that the select list gives. -/
def finish (distinct : Bool) (limit : Option Limit) (results : List (Result Cell)) :
    List (List Cell) :=
  let results :=
    if distinct then distinctBy (fun a b => engine.sameRow a.cells b.cells) results else results
  limited limit ((orderBy (fun a b => engine.keysPrecede a.keys b.keys) results).map (·.cells))

/-! ## Evaluation -/

variable (database : Database Cell)

/-- Whether a comparison holds. -/
def Comparison.holds : Comparison → Cell → Cell → Truth
  | .equal, a, b => engine.equal a b
  | .notEqual, a, b => .negatedIf true (engine.equal a b)
  | .is, a, b => some (engine.same a b)
  | .isNot, a, b => some (!engine.same a b)

/-- The equality holds between the columns that are named. -/
def Equality.eval (c : Context Cell) (e : Equality) : Option Bool := do
  let target ← Context.column? e.target.qualifier e.targetColumn c.frames
  let left ← Context.column? e.left.qualifier e.leftColumn c.frames
  return engine.equal target left == some true

/-- All equalities hold. -/
def Equality.evalAll (c : Context Cell) : List Equality → Option Bool
  | [] => some true
  | e :: rest => do
    let first ← e.eval engine c
    let others ← Equality.evalAll c rest
    return first && others

mutual

/-- The cell that a term gives. -/
def Term.eval (c : Context Cell) : Term → Option Cell
  | .literal sql arguments => engine.literal sql arguments c
  | .value v => some (engine.value v)
  | .constant text => engine.literal text none c
  | .column none name => Context.column? none name c.frames
  | .column (some r) name => Context.column? r.qualifier name c.frames
  | .collate t collation => do engine.collate collation (← t.eval c)
  | .negation t => do return engine.ofTruth (.negatedIf true (engine.truth (← t.eval c)))
  | .comparison how lhs rhs => do
    return engine.ofTruth (how.holds engine (← lhs.eval c) (← rhs.eval c))
  | .nullTest negated t => do
    return engine.ofTruth (.negatedIf negated (some (engine.isNull (← t.eval c))))
  | .prefixOp op t => do engine.prefixed op (← t.eval c)
  | .infixOp op lhs rhs => do engine.infixed op (← lhs.eval c) (← rhs.eval c)
  | .and terms => do return engine.conjunction (← Term.evalAll c terms)
  | .or terms => do return engine.disjunction (← Term.evalAll c terms)
  | .inList negated t items => do
    let cell ← t.eval c
    return engine.ofTruth (.negatedIf negated (engine.member cell (← Term.evalAll c items)))
  | .inQuery negated t query => do
    let cell ← t.eval c
    let column ← (← query.eval c.frames).column?
    return engine.ofTruth (.negatedIf negated (engine.member cell column))
  | .exists negated query => do
    return engine.ofTruth (.negatedIf negated (some !(← query.eval c.frames).rows.isEmpty))
  | .between t low high => do
    let cell ← t.eval c
    let above ← engine.infixed ">=" cell (← low.eval c)
    let below ← engine.infixed "<=" cell (← high.eval c)
    return engine.ofTruth (.all [engine.truth above, engine.truth below])
  | .call function arguments =>
    match engine.aggregate? function arguments.length with
    | some aggregate => do
      aggregate (← (← c.members).mapM fun member => Term.evalAll member arguments)
    | none => do engine.function function (← Term.evalAll c arguments)
  | .countRows _ => do return engine.count (← c.members).length
  | .count t => do
    let cells ← (← c.members).mapM fun member => t.eval member
    return engine.count (engine.known cells).length
  | .countDistinct t => do
    let cells ← (← c.members).mapM fun member => t.eval member
    return engine.count (distinctBy engine.same (engine.known cells)).length

def Term.evalAll (c : Context Cell) : List Term → Option (List Cell)
  | [] => some []
  | t :: rest => do return (← t.eval c) :: (← Term.evalAll c rest)

/-- The condition holds, if there is one. -/
def Term.holds (c : Context Cell) : Option Term → Option Bool
  | some t => do return engine.truth (← t.eval c) == some true
  | none => some true

/-- All conditions hold. -/
def Term.holdAll (c : Context Cell) : List Term → Option Bool
  | [] => some true
  | t :: rest => do
    let first ← t.eval c
    let others ← Term.holdAll c rest
    return engine.truth first == some true && others

/-- The cells that an entry of a select list gives. -/
def Item.eval (c : Context Cell) : Item → Option (List Cell)
  | .everything => (Frame.star none (c.frames.headD [])).map fun columns => columns.map (·.2)
  | .star r =>
    (Frame.star r.qualifier (c.frames.headD [])).map fun columns => columns.map (·.2)
  | .term t => do return [← t.eval c]
  | .aliased t _ => do return [← t.eval c]

def Item.evalAll (c : Context Cell) : List Item → Option (List Cell)
  | [] => some []
  | item :: rest => do return (← item.eval c) ++ (← Item.evalAll c rest)

/-- The sort keys of a row of the result. A bare name means a column of the result if one has it. -/
def SortTerm.evalAll (c : Context Cell) (output : List (Option String × Cell)) :
    List SortTerm → Option (List (Cell × Option Direction))
  | [] => some []
  | .term (.column none name) direction :: rest => do
    let cell ← (labelled output name).or (Context.column? none name c.frames)
    return (cell, direction) :: (← SortTerm.evalAll c output rest)
  | .term t direction :: rest => do
    return (← t.eval c, direction) :: (← SortTerm.evalAll c output rest)
  | .rowIds r :: rest => do
    let cell ← Context.column? r.qualifier "_rowid_" c.frames
    return (cell, some .descending) :: (← SortTerm.evalAll c output rest)

/-- The result of a statement, where `outer` has a row of each statement around. -/
def Statement.eval (outer : List (Frame Cell)) : Statement → Option (Table Cell)
  | ⟨distinct, items, added, source, filter, groupBy, having, orderings, limit⟩ => do
    let read ← From.evalClause outer source
    let kept ← keep (fun row => Term.holds ⟨row :: outer, none⟩ filter) read.rows
    let contexts ← (
      if grouped engine (items ++ added) groupBy having then do
        let keys ← kept.mapM fun row => Term.evalAll ⟨row :: outer, none⟩ groupBy
        keep (fun c => Term.holds c having)
          (groupContexts engine outer read.blank groupBy.isEmpty (keys.zip kept))
      else some (kept.map fun row => ⟨row :: outer, none⟩))
    let names := (items ++ added).flatMap (Item.names read.blank)
    let results ← contexts.mapM fun c => do
      let cells := (← Item.evalAll c items) ++ (← Item.evalAll c added)
      return Result.mk cells (← SortTerm.evalAll c (names.zip cells) orderings)
    return ⟨names, finish engine distinct limit results⟩

/-- The rows that a FROM clause reads. -/
def From.evalClause (outer : List (Frame Cell)) : Option From → Option (Joined Cell)
  | some source => source.eval outer
  | none => some .unit

def From.eval (outer : List (Frame Cell)) : From → Option (Joined Cell)
  | .table _ table name => do
    return (← database.table? table).joined engine.null (name.getD table)
  | .query _ statement name => do return (← statement.eval outer).joined engine.null name
  | .joined left joins => do JoinClause.evalAll outer (← left.eval outer) joins

def JoinClause.evalAll (outer : List (Frame Cell)) (left : Joined Cell) :
    List JoinClause → Option (Joined Cell)
  | [] => some left
  | ⟨kind, target, mapped, own⟩ :: rest => do
    let target ← target.eval outer
    let joined ← left.join kind target fun row => do
      let first ← Equality.evalAll engine ⟨row :: outer, none⟩ mapped
      let others ← Term.holdAll ⟨row :: outer, none⟩ own
      return first && others
    JoinClause.evalAll outer joined rest

end

/-- The result of a statement that stands alone, if it is accepted. -/
def Statement.run (s : Statement) : Option (Table Cell) := s.eval engine database []

end

end RelationalQuery.Sql
