/-
  RelationalQuery.Proofs.Failure.Demands — what rendering demands, in order.

  Rendering fails at three things only: where the names of a statement cannot be chosen, where the
  source of a column or of a star has no name, and where a join is refused. The demands of a query
  list these places in the order in which rendering comes to them. What is not rendered demands
  nothing: the NULL side of a comparison, the operand of an empty list, the condition of a cross
  join.

  Each demand carries what it depends on: a reference the FROM clauses around it, a join the kinds
  of the joins above it in its FROM tree.

  Main definitions:
    * `Frame`, `PlacedJoin`: a FROM clause around a reference, and a join in its FROM tree.
    * `Source.placed`: the joins of a FROM tree, each before those below it.
    * `Demand`, `Query.allDemands`: the demands of a query.
-/

import RelationalQuery.Select.Rendering

namespace RelationalQuery

/-! ## FROM trees -/

/-- A FROM clause as a reference sees it: the leaves of its tree, and all that are named together
with them, which are also those inside its subqueries. -/
structure Frame where
  leaves : List SourceId
  together : List SourceId

/-- The reference's source is a leaf of one of the FROM trees around. -/
def InScope (chain : List Frame) (source : SourceId) : Prop :=
  ∃ frame ∈ chain, source ∈ frame.leaves

/-- The reference's source is named together with one of the FROM trees around. -/
def NamedTogether (chain : List Frame) (source : SourceId) : Prop :=
  ∃ frame ∈ chain, source ∈ frame.together

instance (chain : List Frame) (source : SourceId) : Decidable (InScope chain source) :=
  inferInstanceAs (Decidable (∃ frame ∈ chain, source ∈ frame.leaves))

instance (chain : List Frame) (source : SourceId) : Decidable (NamedTogether chain source) :=
  inferInstanceAs (Decidable (∃ frame ∈ chain, source ∈ frame.together))

/-- A source is in scope if it is a leaf of the nearest FROM tree, or in scope further out. -/
theorem inScope_cons {frame : Frame} {chain : List Frame} {source : SourceId} :
    InScope (frame :: chain) source ↔ source ∈ frame.leaves ∨ InScope chain source := by
  simp [InScope]

/-- A source is named together with the nearest FROM tree, or with one further out. -/
theorem namedTogether_cons {frame : Frame} {chain : List Frame} {source : SourceId} :
    NamedTogether (frame :: chain) source ↔
      source ∈ frame.together ∨ NamedTogether chain source := by
  simp [NamedTogether]

/-- A join in its FROM tree: the kinds of the joins that it hangs on, the nearest first, and what
stands on its left. -/
structure PlacedJoin where
  above : List JoinKind
  left : Clauses.Anchor
  kind : JoinKind
  relation : Relation

/-- A join that drops rows, below one that keeps them. -/
def PlacedJoin.Misplaced (j : PlacedJoin) : Prop := j.kind ≠ .left ∧ .left ∈ j.above

/-- The kinds of the joins from the root down to this one. -/
def PlacedJoin.path (j : PlacedJoin) : List JoinKind := j.above.reverse ++ [j.kind]

mutual

/-- The leaves of a FROM tree; what stands inside subqueries is not part of it. -/
def Source.leafIds : Source → List SourceId
  | .table id _ _ | .subquery id _ _ => [id]
  | .joinTree _ left joins => left.leafIds ++ Join.leafIds joins

/-- The leaves that joins and the joins below them add. -/
def Join.leafIds : List Join → List SourceId
  | [] => []
  | ⟨_, _, ⟨_, target, _, _, _, joins⟩⟩ :: rest =>
    target.leafIds ++ Join.leafIds joins ++ Join.leafIds rest

end

mutual

/-- The joins of a FROM tree, each before those below it. -/
def Source.placed : Source → List PlacedJoin
  | .table _ _ _ | .subquery _ _ _ => []
  | .joinTree _ left joins => left.placed ++ Join.placed [] (Clauses.anchor left) joins

/-- Joins on one left source, below joins of the given kinds. -/
def Join.placed (above : List JoinKind) (left : Clauses.Anchor) : List Join → List PlacedJoin
  | [] => []
  | ⟨_, kind, ⟨name, target, mapping, condition, selection, joins⟩⟩ :: rest =>
    ⟨above, left, kind, ⟨name, target, mapping, condition, selection, joins⟩⟩ ::
      (target.placed ++ Join.placed (kind :: above) (Clauses.anchor target) joins) ++
      Join.placed above left rest

end

/-! ## Demands -/

/-- Something that rendering may fail at. -/
inductive Demand where
  /-- The names of a statement's leaves, where the names of `outer` are in use. -/
  | naming (outer : List String) (occurrences : List Occurrence)
  /-- The name of a column's or a star's source, inside the given FROM clauses. -/
  | reference (chain : List Frame) (source : SourceId) (column : String)
  /-- A join and its mapping. -/
  | join (placed : PlacedJoin)

namespace Demand

/-- Whether the demand is met, and with which error it is not. -/
def check (schema : Schema) : Demand → Except QueryError Unit
  | .naming outer occurrences => do
    let _ ← Naming.resolve outer occurrences
  | .reference chain source column =>
    if InScope chain source ∨ NamedTogether chain source then .ok ()
    else .error (.detachedSource column)
  | .join placed => do
    Clauses.checkRequired (decide (.left ∈ placed.above)) placed.kind placed.relation.name
    Clauses.checkMapping schema placed.left (Clauses.anchor placed.relation.target)
      placed.relation.mapping

/-- The demands of two compared operands. With a NULL constant on either side only the other one
is rendered. -/
def ofComparison (lhs rhs : Expr) (left right : List Demand) : List Demand :=
  if rhs.isNullValue then left else if lhs.isNullValue then right else left ++ right

/-- The demands of a mapping. -/
def ofMapping (chain : List Frame) (left target : SourceId) :
    List (String × String) → List Demand
  | [] => []
  | (leftColumn, targetColumn) :: rest =>
    .reference chain target targetColumn :: .reference chain left leftColumn ::
      ofMapping chain left target rest

/-- The demands of a statement in its own scope, if it gets one. -/
def inside (scope : Scope) (occurrences : List Occurrence) (within : Scope → List Demand) :
    List Demand :=
  .naming scope.visible occurrences ::
    match scope.enter occurrences with
    | .ok inner => within inner
    | .error _ => []

end Demand

/-- The leaves of a FROM clause, if there is one. -/
def Source.leafIdsOf (source : Option Source) : List SourceId :=
  (source.map Source.leafIds).getD []

/-- The leaves that are named together in a statement. -/
def Query.namedIds (q : Query) : List SourceId := q.occurrences.map (·.id)

mutual

/-- The demands of an expression, of which a subquery has a scope and a FROM clause of its own. -/
def Expr.demands (scope : Scope) (chain : List Frame) : Expr → List Demand
  | .literal _ _ | .value _ | .column none _ => []
  | .column (some source) name => [.reference chain source name]
  | .collate e _ | .not e | .prefixOp _ e | .countDistinct e => e.demands scope chain
  | .equal lhs rhs | .notEqual lhs rhs | .is lhs rhs | .isNot lhs rhs =>
    Demand.ofComparison lhs rhs (lhs.demands scope chain) (rhs.demands scope chain)
  | .infixOp _ lhs rhs => lhs.demands scope chain ++ rhs.demands scope chain
  | .and es | .or es | .call _ es => Expr.demandsAll scope chain es
  | .inList e items =>
    if items.isEmpty then [] else e.demands scope chain ++ Expr.demandsAll scope chain items
  | .inQuery e query =>
    e.demands scope chain ++ Demand.inside scope query.occurrences fun inner =>
      query.demands inner query.namedIds chain
  | .exists query =>
    Demand.inside scope query.occurrences fun inner => query.demands inner query.namedIds chain
  | .between e low high =>
    e.demands scope chain ++ (low.demands scope chain ++ high.demands scope chain)
  | .count counted => counted.demands scope chain

/-- The demands of expressions one after the other. -/
def Expr.demandsAll (scope : Scope) (chain : List Frame) : List Expr → List Demand
  | [] => []
  | e :: rest => e.demands scope chain ++ Expr.demandsAll scope chain rest

/-- The demands of a condition, if there is one. -/
def Expr.demandsOf (scope : Scope) (chain : List Frame) : Option Expr → List Demand
  | some condition => condition.demands scope chain
  | none => []

/-- The demands of an entry of a select list: a star asks for its source. -/
def ResultColumn.demands (scope : Scope) (chain : List Frame) : ResultColumn → List Demand
  | .star source => [.reference chain source "*"]
  | .expr e | .aliased e _ => e.demands scope chain

/-- The demands of a select list. -/
def ResultColumn.demandsAll (scope : Scope) (chain : List Frame) :
    List ResultColumn → List Demand
  | [] => []
  | column :: rest => column.demands scope chain ++ ResultColumn.demandsAll scope chain rest

/-- The demands of an ordering. -/
def OrderingTerm.demandsAll (scope : Scope) (chain : List Frame) :
    List OrderingTerm → List Demand
  | [] => []
  | ⟨e, _⟩ :: rest => e.demands scope chain ++ OrderingTerm.demandsAll scope chain rest

/-- The demands of a statement whose leaves are named together with `together`, inside the FROM
clauses `outer`. -/
def Query.demands (scope : Scope) (together : List SourceId) (outer : List Frame) :
    Query → List Demand
  | ⟨selection, _, source, filter, groupBy, having, orderings, _, _⟩ =>
    let frame := ⟨Source.leafIdsOf source, together⟩
    let chain := frame :: outer
    (if Clauses.readsWhole selection source then [] else
      ResultColumn.demandsAll scope chain selection ++
        Source.demandsColumns scope chain source) ++
    (Source.demandsClause scope frame outer source ++
      (Expr.demandsOf scope chain filter ++
        (Expr.demandsAll scope chain groupBy ++
          (Expr.demandsOf scope chain having ++ OrderingTerm.demandsAll scope chain orderings))))

/-- The demands of the columns that the joins of a FROM clause add. -/
def Source.demandsColumns (scope : Scope) (chain : List Frame) : Option Source → List Demand
  | some (.joinTree _ _ joins) => Join.demandsColumns scope chain joins
  | _ => []

/-- The demands of a FROM clause, if there is one. -/
def Source.demandsClause (scope : Scope) (frame : Frame) (outer : List Frame) :
    Option Source → List Demand
  | some source => source.demands scope frame outer
  | none => []

/-- The demands of the columns that joins and the joins below them add. -/
def Join.demandsColumns (scope : Scope) (chain : List Frame) : List Join → List Demand
  | [] => []
  | ⟨included, _, ⟨_, target, _, _, selection, joins⟩⟩ :: rest =>
    (if included then ResultColumn.demandsAll scope chain (selection target.id) else []) ++
      (Join.demandsColumns scope chain joins ++ Join.demandsColumns scope chain rest)

/-- The demands of a FROM tree. A subquery in it does not see the sources beside it, but they are
named together. -/
def Source.demands (scope : Scope) (frame : Frame) (outer : List Frame) : Source → List Demand
  | .table _ _ _ => []
  | .subquery _ query _ => query.demands scope frame.together outer
  | .joinTree _ left joins =>
    left.demands scope frame outer ++
      Join.demands scope frame outer [] (Clauses.anchor left) joins

/-- The demands of joins on one left source, below joins of the given kinds. -/
def Join.demands (scope : Scope) (frame : Frame) (outer : List Frame) (above : List JoinKind)
    (left : Clauses.Anchor) : List Join → List Demand
  | [] => []
  | ⟨_, kind, ⟨name, target, mapping, condition, selection, joins⟩⟩ :: rest =>
    .join ⟨above, left, kind, ⟨name, target, mapping, condition, selection, joins⟩⟩ ::
      (target.demands scope frame outer ++
        ((if kind = .cross then [] else
            Demand.ofMapping (frame :: outer) left.id target.id mapping ++
              Expr.demandsAll scope (frame :: outer) (condition left.id target.id)) ++
          (Join.demands scope frame outer (kind :: above) (Clauses.anchor target) joins ++
            Join.demands scope frame outer above left rest)))

end

/-- The demands of a statement that stands alone. -/
def Query.allDemands (schema : Schema) (q : Query) : List Demand :=
  Demand.inside (.outermost schema) q.occurrences fun scope => q.demands scope q.namedIds []

end RelationalQuery
