/-
  RelationalQuery.Scope.Naming — one name for every source of a statement.

  Sources that ask for the same name, ASCII case aside, form a group. A source that is alone
  in its group keeps its name unless an enclosing statement uses it, and an explicit alias is
  kept always; the others are numbered, each with the first number whose name is not taken.
  Names are taken by enclosing statements, by sources that keep theirs, and by sources
  numbered earlier.

  Main definitions:
    * `Naming`: the names of one statement's sources.
    * `Naming.resolve`: the choice of names.
-/

import RelationalQuery.Error
import RelationalQuery.Scope.Occurrence

namespace RelationalQuery

/-- The names of one statement's sources; an unnamed subquery has none. -/
abbrev Naming : Type := List (SourceId × Option String)

namespace Naming

/-! ## Groups -/

/-- The first of each id. -/
def distinct : List Occurrence → List Occurrence
  | [] => []
  | o :: rest => o :: (distinct rest).filter fun p => decide (p.id ≠ o.id)

/-- The first of each key. -/
def distinctKeys : List String → List String
  | [] => []
  | key :: rest => key :: (distinctKeys rest).filter fun other => decide (other ≠ key)

/-- The keys of the groups, in the order of their first members. -/
def groupKeys (os : List Occurrence) : List String := distinctKeys (os.filterMap (·.key?))

/-- The members of a group. -/
def group (os : List Occurrence) (key : String) : List Occurrence :=
  os.filter fun o => decide (o.key? = some key)

/-- The members of a group with an explicit alias. -/
def explicitMembers (os : List Occurrence) (key : String) : List Occurrence :=
  (group os key).filter (·.explicit)

/-- The members of a group that may be numbered. -/
def derivedMembers (os : List Occurrence) (key : String) : List Occurrence :=
  (group os key).filter (!·.explicit)

/-- The group keeps its name as a whole: it has one member and no enclosing statement uses the
name, or all its members are explicit. -/
def keepsName (outer : List String) (os : List Occurrence) (key : String) : Bool :=
  decide ((group os key).length < 2 ∧ key ∉ outer) || (derivedMembers os key).isEmpty

/-- The name of the group stays in use, if only by its explicit member. -/
def staysTaken (outer : List String) (os : List Occurrence) (key : String) : Bool :=
  keepsName outer os key || !(explicitMembers os key).isEmpty

/-- No group has two explicit members. -/
def checkExplicit (os : List Occurrence) (key : String) : Except QueryError Unit :=
  match explicitMembers os key with
  | first :: _ :: _ => .error (.duplicateAlias (first.name.getD ""))
  | _ => .ok ()

/-! ## Numbering -/

/-- A name with a number. -/
def numberedName (name : String) (index : Nat) : String := name ++ toString index

/-- The least number from `start` on whose name is not taken. Of one candidate more than there
are taken names, one is free. -/
def nextIndex (taken : List String) (name : String) (start : Nat) : Nat :=
  ((List.range' start (taken.length + 1)).find? fun index =>
    decide (Identifier.fold (numberedName name index) ∉ taken)).getD start

/-- Numbers the members of one group from `start` on: the new names, and what is taken then. -/
def numberGroup (taken : List String) (start : Nat) :
    List Occurrence → List (SourceId × String) × List String
  | [] => ([], taken)
  | o :: rest =>
    let name := o.name.getD ""
    let index := nextIndex taken name start
    let chosen := numberedName name index
    let (names, taken) := numberGroup (Identifier.fold chosen :: taken) (index + 1) rest
    ((o.id, chosen) :: names, taken)

/-- Numbers group after group, each from zero. -/
def numberGroups (taken : List String) : List (List Occurrence) → List (SourceId × String)
  | [] => []
  | members :: rest =>
    let (names, taken) := numberGroup taken 0 members
    names ++ numberGroups taken rest

/-! ## The choice of names -/

/-- The new names of the sources that do not keep theirs. -/
def renamed (outer : List String) (os : List Occurrence) : List (SourceId × String) :=
  let keys := groupKeys os
  let kept := keys.filter (staysTaken outer os)
  let numbered := keys.filter (!keepsName outer os ·)
  numberGroups (outer ++ kept) (numbered.map (derivedMembers os))

/-- Every source with its new name, or else the name that it asked for. -/
def assign (names : List (SourceId × String)) (os : List Occurrence) : Naming :=
  os.map fun o => (o.id, (names.lookup o.id).or o.name)

/-- The first name that a later one repeats, ASCII case aside. -/
def repeated? : List String → Option String
  | [] => none
  | name :: rest =>
    if rest.any fun other => decide (Identifier.Same other name) then some name
    else repeated? rest

/-- The names that the sources have, in order. -/
def names (naming : Naming) : List String := naming.filterMap (·.2)

/-- Chooses the names of a statement's sources. `outer` lists the names of the enclosing
statements, folded. -/
def resolve (outer : List String) (occurrences : List Occurrence) : Except QueryError Naming := do
  let os := distinct occurrences
  (groupKeys os).forM (checkExplicit os)
  let naming := assign (renamed outer os) os
  match repeated? naming.names with
  | some name => .error (.ambiguousSource name)
  | none => .ok naming

end Naming

end RelationalQuery
