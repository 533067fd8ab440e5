/-
  RelationalQuery.Select.Relation — building relations.

  A relation can be used many times: where it is attached, a fork of it is. Its logical name
  also serves as the SQL name of its target unless the target is a table of that name.

  Main definitions:
    * `Relation.foreignKey`, `Relation.toTable`, `Relation.toQuery`: construction.
    * `aliased`, `restrict`, `select`, `attach`: the same relation with more to it.
-/

import RelationalQuery.Select.Source

namespace RelationalQuery.Relation

/-! ## Construction -/

/-- A relation with no condition that selects every column of its target. -/
def unconditional (name : String) (target : Source) : Relation where
  name := name
  target := target
  mapping := []
  condition := fun _ _ => []
  selection := fun target => [.star target]
  joins := []

/-- A new occurrence of a table, under the name of the relation that leads to it. -/
def tableTarget (name table : String) : Supply Source := do
  let target ← Source.ofTable table
  return if name = table then target else target.setAlias (.derived name)

/-- Relation to a table whose columns equal columns on the left, given as pairs of a left and a
right column. -/
def foreignKey (name table : String) (mapping : List (String × String)) : Supply Relation := do
  return { unconditional name (← tableTarget name table) with mapping }

/-- Relation to a table by a condition on the left source and the target. -/
def toTable (name table : String) (condition : SourceId → SourceId → Expr) : Supply Relation := do
  return { unconditional name (← tableTarget name table) with
    condition := fun left right => (condition left right).conjuncts }

/-- Relation to a query by a condition on the left source and the target. -/
def toQuery (name : String) (query : Query) (condition : SourceId → SourceId → Expr) :
    Supply Relation := do
  return { unconditional name (← Source.ofQuery query (some (.derived name))) with
    condition := fun left right => (condition left right).conjuncts }

/-! ## Refinement -/

/-- Another occurrence of the relation whose target has an explicit alias. -/
def aliased (r : Relation) (name : String) : Supply Relation := do
  let r ← r.fork
  return { r with target := r.target.setAlias (.given name) }

/-- Adds a condition; all conditions have to hold. -/
def restrict (r : Relation) (condition : SourceId → SourceId → Expr) : Relation :=
  { r with condition := fun left right =>
      r.condition left right ++ (condition left right).conjuncts }

/-- Selects other columns in place of the target's own. -/
def select (r : Relation) (selection : SourceId → List ResultColumn) : Relation :=
  { r with selection }

/-- Joins forks of other relations to the target. -/
def attach (r : Relation) (kind : JoinKind) (included : Bool) (relations : List Relation) :
    Supply Relation := do
  let joins ← Join.ofRelations kind included relations
  return { r with joins := r.joins ++ joins }

/-- Attaches optional relations whose columns are selected. -/
def includeOptional (r : Relation) : List Relation → Supply Relation := r.attach .left true

/-- Attaches required relations whose columns are selected. -/
def includeRequired (r : Relation) : List Relation → Supply Relation := r.attach .inner true

/-- Attaches optional relations whose columns are not selected. -/
def joinOptional (r : Relation) : List Relation → Supply Relation := r.attach .left false

/-- Attaches required relations whose columns are not selected. -/
def joinRequired (r : Relation) : List Relation → Supply Relation := r.attach .inner false

end RelationalQuery.Relation
