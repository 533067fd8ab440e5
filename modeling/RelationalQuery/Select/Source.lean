/-
  RelationalQuery.Select.Source — sources, their ids and their copies.

  Ids come from a supply. A clone of a source is the same occurrence; a fork is another one: it
  has fresh ids in its whole FROM tree, so it can stand beside the source in one statement.
  The query inside a subquery source is shared with the fork.

  Main definitions:
    * `Supply`, `SourceId.fresh`: where ids come from.
    * `Source.root`, `Source.name?`, `Source.setAlias`: the leftmost leaf and its name.
    * `Source.fork`, `Relation.fork`: copies with fresh ids.
    * `Source.find?`: the source of an id.
-/

import RelationalQuery.Select.Expr

namespace RelationalQuery

/-! ## The supply of ids -/

/-- Computations that draw ids; the state is the next unused one. -/
abbrev Supply : Type → Type := StateM Nat

/-- An id that was not drawn before. -/
def SourceId.fresh : Supply SourceId := modifyGet fun next => (⟨next⟩, next + 1)

/-- The alias that a caller asks for by name. -/
def Alias.given (name : String) : Alias := ⟨name, true⟩

/-- The alias that follows from a relation's name. -/
def Alias.derived (name : String) : Alias := ⟨name, false⟩

namespace Source

/-! ## Construction -/

/-- A new occurrence of a table. -/
def ofTable (table : String) : Supply Source := do
  return .table (← SourceId.fresh) table none

/-- A new occurrence of a query in parentheses. -/
def ofQuery (query : Query) (label : Option Alias) : Supply Source := do
  return .subquery (← SourceId.fresh) query label

/-! ## Ids and names -/

def id : Source → SourceId
  | .table id _ _ | .subquery id _ _ | .joinTree id _ _ => id

/-- The leftmost leaf. -/
def root : Source → Source
  | .joinTree _ left _ => left.root
  | leaf => leaf

/-- The name before collisions are resolved: the alias of the root, or else its table. -/
def name? : Source → Option String
  | .table _ name label => some ((label.map (·.name)).getD name)
  | .subquery _ _ label => label.map (·.name)
  | .joinTree _ left _ => left.name?

/-- The alias of the root. -/
def alias? : Source → Option Alias
  | .table _ _ label | .subquery _ _ label => label
  | .joinTree _ left _ => left.alias?

/-- The root was given its alias by the caller. -/
def isExplicit (s : Source) : Bool := (s.alias?.map (·.explicit)).getD false

/-- Names the root. -/
def setAlias (label : Alias) : Source → Source
  | .table id name _ => .table id name (some label)
  | .subquery id query _ => .subquery id query (some label)
  | .joinTree id left joins => .joinTree id (left.setAlias label) joins

/-- The relations joined to the source. -/
def joins : Source → List Join
  | .joinTree _ _ joins => joins
  | _ => []

/-- Joins more relations to the source; a leaf becomes a join tree. -/
def attach (s : Source) (more : List Join) : Supply Source :=
  match s with
  | .joinTree id left joins => return .joinTree id left (joins ++ more)
  | leaf => do return .joinTree (← SourceId.fresh) leaf more

end Source

/-! ## Forks -/

mutual

/-- The same source as other occurrences. -/
def Source.fork : Source → Supply Source
  | .table _ table label => do return .table (← SourceId.fresh) table label
  | .subquery _ query label => do return .subquery (← SourceId.fresh) query label
  | .joinTree _ left joins => do
    let id ← SourceId.fresh
    let left ← left.fork
    let joins ← Join.forkAll joins
    return .joinTree id left joins

/-- The same relation with other occurrences, down the whole chain. -/
def Relation.fork : Relation → Supply Relation
  | ⟨name, target, mapping, condition, selection, joins⟩ => do
    let target ← target.fork
    let joins ← Join.forkAll joins
    return ⟨name, target, mapping, condition, selection, joins⟩

/-- The same joins, in order, with other occurrences. -/
def Join.forkAll : List Join → Supply (List Join)
  | [] => return []
  | ⟨included, kind, relation⟩ :: rest => do
    let relation ← relation.fork
    let rest ← Join.forkAll rest
    return ⟨included, kind, relation⟩ :: rest

end

/-- Forks of relations, in order, as joins of one kind. -/
def Join.ofRelations (kind : JoinKind) (included : Bool) : List Relation → Supply (List Join)
  | [] => return []
  | relation :: rest => do
    let relation ← relation.fork
    let rest ← Join.ofRelations kind included rest
    return ⟨included, kind, relation⟩ :: rest

/-! ## Look-up -/

mutual

/-- The source of an id in this FROM tree; sources inside subqueries are not part of it. -/
def Source.find? (wanted : SourceId) : Source → Option Source
  | .table id table label => if id = wanted then some (.table id table label) else none
  | .subquery id query label => if id = wanted then some (.subquery id query label) else none
  | .joinTree id left joins =>
    if id = wanted then some (.joinTree id left joins)
    else (left.find? wanted).or (Join.findSource? wanted joins)

/-- The source of an id among the targets of joins, depth first. -/
def Join.findSource? (wanted : SourceId) : List Join → Option Source
  | [] => none
  | ⟨_, _, ⟨_, target, _, _, _, joins⟩⟩ :: rest =>
    ((target.find? wanted).or (Join.findSource? wanted joins)).or (Join.findSource? wanted rest)

end

/-- The relation of a logical name among joins, depth first. -/
def Join.findRelation? (name : String) : List Join → Option Relation
  | [] => none
  | ⟨_, _, ⟨own, target, mapping, condition, selection, joins⟩⟩ :: rest =>
    if own = name then some ⟨own, target, mapping, condition, selection, joins⟩
    else (Join.findRelation? name joins).or (Join.findRelation? name rest)

end RelationalQuery
