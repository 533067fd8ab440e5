/-
  RelationalQuery.Scope.Occurrence — the sources that take part in naming.

  A statement names every table and every subquery that its FROM clause reads, and those that
  the FROM clauses of its subquery sources read, in the order in which they are written. Join
  trees have no name of their own.

  Main definitions:
    * `Occurrence`: a named leaf, as naming sees it.
    * `Source.occurrences`, `Query.occurrences`: the leaves in order.
-/

import RelationalQuery.Identifier
import RelationalQuery.Select.Query

namespace RelationalQuery

/-- A leaf of a FROM clause, with the name that it asks for. -/
structure Occurrence where
  id : SourceId
  name : Option String
  explicit : Bool
deriving DecidableEq

/-- What the name is compared by. -/
def Occurrence.key? (o : Occurrence) : Option String := o.name.map Identifier.fold

/-- A leaf as naming sees it. -/
def Source.occurrence (s : Source) : Occurrence := ⟨s.id, s.name?, s.isExplicit⟩

mutual

/-- The leaves of a source in order; a subquery stands before the leaves inside it. -/
def Source.occurrences : Source → List Occurrence
  | .table id table label => [(Source.table id table label).occurrence]
  | .subquery id query label =>
    (Source.subquery id query label).occurrence :: query.occurrences
  | .joinTree _ left joins => left.occurrences ++ Join.occurrences joins

/-- The leaves that joins add. -/
def Join.occurrences : List Join → List Occurrence
  | [] => []
  | ⟨_, _, ⟨_, target, _, _, _, joins⟩⟩ :: rest =>
    target.occurrences ++ Join.occurrences joins ++ Join.occurrences rest

/-- The leaves of a query's source. -/
def Query.occurrences : Query → List Occurrence
  | ⟨_, _, source, _, _, _, _, _, _⟩ =>
    match source with
    | none => []
    | some source => source.occurrences

end

end RelationalQuery
