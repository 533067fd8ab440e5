/-
  RelationalQuery.Proofs.Statement.Sites — where a statement uses and introduces names.

  A FROM clause introduces one name for each of its sources, and a qualified reference uses one.
  What a reference means depends on the FROM clauses around it. The clauses of a statement
  see its own FROM clause and those of the statements around it; a subquery in an expression sees
  all of these behind its own; a subquery in a FROM clause sees its own and what the whole
  statement sees from outside, but not the sources beside it.

  Main definitions:
    * `Sql.From.leaves`: the names that a FROM clause introduces.
    * `Sql.Statement.sites`: every use of a name with the FROM clauses around it, and every
      FROM clause.
    * `Sql.denoted?`: the source that a name stands for.
-/

import RelationalQuery.Proofs.Statement.Tree

namespace RelationalQuery.Sql

/-! ## Introduced names -/

/-- A source in a FROM clause, and the name that it can be referred to by. -/
structure Leaf where
  id : SourceId
  name : Option String
deriving DecidableEq

mutual

/-- The sources of a FROM clause in order. A table without a name of its own goes by that of the
table. -/
def From.leaves : From → List Leaf
  | .table o table name => [⟨o.id, some (name.getD table)⟩]
  | .query o _ name => [⟨o.id, name⟩]
  | .joined left joins => left.leaves ++ JoinClause.leaves joins

/-- The leaves that joins introduce. -/
def JoinClause.leaves : List JoinClause → List Leaf
  | [] => []
  | ⟨_, target, _, _⟩ :: rest => target.leaves ++ JoinClause.leaves rest

end

/-- The sources of a statement's FROM clause; without the clause there are none. -/
def Statement.leaves (s : Statement) : List Leaf := (s.source.map From.leaves).getD []

mutual

/-- The leaves that are named together: those of the FROM clause, and those of the FROM clauses of
its subqueries. -/
def From.occurrences : From → List Occurrence
  | .table o _ _ => [o]
  | .query o statement _ => o :: statement.occurrences
  | .joined left joins => left.occurrences ++ JoinClause.occurrences joins

def JoinClause.occurrences : List JoinClause → List Occurrence
  | [] => []
  | ⟨_, target, _, _⟩ :: rest => target.occurrences ++ JoinClause.occurrences rest

/-- The leaves that are named together in a statement. -/
def Statement.occurrences : Statement → List Occurrence
  | ⟨_, _, _, source, _, _, _, _, _⟩ =>
    match source with
    | none => []
    | some source => source.occurrences

end

/-! ## Sites -/

/-- A FROM clause as what stands inside it sees it: its sources, and the leaves that are named
together with them. -/
structure Level where
  leaves : List Leaf
  occurrences : List Occurrence
deriving DecidableEq

/-- A place in a statement where a name matters. -/
inductive Site where
  /-- A qualified reference, inside the given FROM clauses, innermost first. -/
  | reference (chain : List Level) (r : Reference)
  /-- A FROM clause with its sources. -/
  | clause (leaves : List Leaf)
deriving DecidableEq

/-- The references of a mapping. -/
def Equality.sites (chain : List Level) (e : Equality) : List Site :=
  [.reference chain e.target, .reference chain e.left]

mutual

/-- The sites in a term, of which a statement inside has its own FROM clause in front. -/
def Term.sites (chain : List Level) : Term → List Site
  | .literal _ _ | .value _ | .constant _ | .column none _ | .countRows _ => []
  | .column (some r) _ => [.reference chain r]
  | .collate t _ | .negation t | .nullTest _ t | .prefixOp _ t | .count t | .countDistinct t =>
    t.sites chain
  | .comparison _ lhs rhs | .infixOp _ lhs rhs => lhs.sites chain ++ rhs.sites chain
  | .and ts | .or ts | .call _ ts => Term.sitesAll chain ts
  | .inList _ t items => t.sites chain ++ Term.sitesAll chain items
  | .inQuery _ t query => t.sites chain ++ query.sites query.occurrences chain
  | .exists _ query => query.sites query.occurrences chain
  | .between t low high => t.sites chain ++ low.sites chain ++ high.sites chain

/-- The sites in a list of terms. -/
def Term.sitesAll (chain : List Level) : List Term → List Site
  | [] => []
  | t :: rest => t.sites chain ++ Term.sitesAll chain rest

/-- The sites in a condition, if there is one. -/
def Term.sitesOf (chain : List Level) : Option Term → List Site
  | some t => t.sites chain
  | none => []

/-- The sites in an entry of a select list: a star refers to its source. -/
def Item.sites (chain : List Level) : Item → List Site
  | .everything => []
  | .star r => [.reference chain r]
  | .term t | .aliased t _ => t.sites chain

/-- The sites in a select list. -/
def Item.sitesAll (chain : List Level) : List Item → List Site
  | [] => []
  | item :: rest => item.sites chain ++ Item.sitesAll chain rest

/-- The sites in an ordering. -/
def SortTerm.sitesAll (chain : List Level) : List SortTerm → List Site
  | [] => []
  | .term t _ :: rest => t.sites chain ++ SortTerm.sitesAll chain rest
  | .rowIds r :: rest => .reference chain r :: SortTerm.sitesAll chain rest

/-- The sites of a statement whose sources are named among `named`, inside the FROM clauses
`outer`. -/
def Statement.sites (named : List Occurrence) (outer : List Level) : Statement → List Site
  | ⟨_, items, added, source, filter, groupBy, having, orderings, _⟩ =>
    let level := ⟨(source.map From.leaves).getD [], named⟩
    let chain := level :: outer
    .clause level.leaves :: Item.sitesAll chain items ++ Item.sitesAll chain added ++
      From.sitesOf level outer source ++ Term.sitesOf chain filter ++
      Term.sitesAll chain groupBy ++ Term.sitesOf chain having ++
      SortTerm.sitesAll chain orderings

/-- The sites in a FROM clause: those of its subqueries and of its conditions. -/
def From.sites (level : Level) (outer : List Level) : From → List Site
  | .table _ _ _ => []
  | .query _ statement _ => statement.sites level.occurrences outer
  | .joined left joins => left.sites level outer ++ JoinClause.sitesAll level outer joins

/-- The sites in a FROM clause, if there is one. -/
def From.sitesOf (level : Level) (outer : List Level) : Option From → List Site
  | some source => source.sites level outer
  | none => []

/-- The sites in joins: in the target of each, and in its condition. -/
def JoinClause.sitesAll (level : Level) (outer : List Level) : List JoinClause → List Site
  | [] => []
  | ⟨_, target, mapped, own⟩ :: rest =>
    target.sites level outer ++ mapped.flatMap (Equality.sites (level :: outer)) ++
      Term.sitesAll (level :: outer) own ++ JoinClause.sitesAll level outer rest

end

/-- The sites of a statement that stands alone. -/
def Statement.allSites (s : Statement) : List Site := s.sites s.occurrences []

/-! ## What a name stands for -/

/-- The first source of a FROM clause that goes by the name, ASCII case aside. -/
def Level.denoted? (level : Level) (name : String) : Option SourceId :=
  (level.leaves.find? fun leaf => leaf.name.any fun own => decide (Identifier.Same own name)).map
    (·.id)

/-- The source that a name stands for: the first one of the innermost FROM clause that has one. -/
def denoted? (chain : List Level) (name : String) : Option SourceId :=
  chain.findSome? (·.denoted? name)

end RelationalQuery.Sql
