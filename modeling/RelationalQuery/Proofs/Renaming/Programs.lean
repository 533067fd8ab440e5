/-
  RelationalQuery.Proofs.Renaming.Programs — the same program from another start.

  A program is a list of building steps. A step names the values that it takes by their places among
  those held, and an expression in it is made of what is held when the step is taken. Of ids it
  knows those of held values, and those that are yet to be drawn: conditions and selections may hold
  queries that are built when they are called, and the ids drawn for these are passed over by a step
  of the program.

  Main definitions:
    * `Session.Twin`: two sessions hold the same under other ids, and so they will.
    * `Made`: what a caller makes of the values held.
    * `Step`, `Step.run`, `Program.run`: the building operations, and programs of them.

  Main statements:
    * `Step.run_twin`, `Program.run_twin`: programs keep sessions the same under other ids.
-/

import RelationalQuery.Proofs.Building.Session
import RelationalQuery.Proofs.Renaming.Building

namespace RelationalQuery

variable {ρ : Renaming}

/-! ## Sessions -/

theorem Source.Renamed.base {s s' : Source} (h : s.Renamed ρ s') : s.base.Renamed ρ s'.base := by
  cases h with
  | table h name label => exact .table h name label
  | subquery h hq label => exact .subquery h hq label
  | joinTree _ hleft _ => exact hleft

theorem Join.Renamed.relation {j j' : Join} (h : j.Renamed ρ j') :
    j.relation.Renamed ρ j'.relation := by
  cases h
  assumption

/-- The same value under other ids. -/
inductive Held.Renamed (ρ : Renaming) : Held → Held → Prop
  | query {q q' : Query} (h : q.Renamed ρ q') : Held.Renamed ρ (.query q) (.query q')
  | source {s s' : Source} (h : s.Renamed ρ s') : Held.Renamed ρ (.source s) (.source s')
  | relation {r r' : Relation} (h : r.Renamed ρ r') : Held.Renamed ρ (.relation r) (.relation r')

/-- The sessions hold the same under other ids, and what they draw next is renamed too. -/
structure Session.Twin (ρ : Renaming) (σ σ' : Session) : Prop where
  next : ρ.InStep σ.next σ'.next
  held : List.Forall₂ (Held.Renamed ρ) σ.held σ'.held

namespace Held

/-- The value, if it is a query. -/
def query? : Held → Option Query
  | .query q => some q
  | _ => none

def source? : Held → Option Source
  | .source s => some s
  | _ => none

def relation? : Held → Option Relation
  | .relation r => some r
  | _ => none

end Held

namespace Session

/-- The query at a place among the values held, the latest first. -/
def query? (σ : Session) (place : Nat) : Option Query := σ.held[place]?.bind Held.query?

def source? (σ : Session) (place : Nat) : Option Source := σ.held[place]?.bind Held.source?

def relation? (σ : Session) (place : Nat) : Option Relation := σ.held[place]?.bind Held.relation?

end Session

namespace Session.Twin

variable {σ σ' : Session} (h : Session.Twin ρ σ σ') (place : Nat)
include h

/-- The queries at a place are the same. -/
theorem query? : Option.Rel (Query.Renamed ρ) (σ.query? place) (σ'.query? place) :=
  rel_bind (rel_getElem? h.held place) fun hv => by
    cases hv with
    | query hq => exact .some hq
    | source => exact .none
    | relation => exact .none

/-- The sources at a place are the same. -/
theorem source? : Option.Rel (Source.Renamed ρ) (σ.source? place) (σ'.source? place) :=
  rel_bind (rel_getElem? h.held place) fun hv => by
    cases hv with
    | query => exact .none
    | source hs => exact .some hs
    | relation => exact .none

/-- The relations at a place are the same. -/
theorem relation? : Option.Rel (Relation.Renamed ρ) (σ.relation? place) (σ'.relation? place) :=
  rel_bind (rel_getElem? h.held place) fun hv => by
    cases hv with
    | query => exact .none
    | source => exact .none
    | relation hr => exact .some hr

omit place in
/-- The relations at some places are the same, one by one. -/
theorem relations (places : List Nat) : List.Forall₂ (Relation.Renamed ρ)
    (places.filterMap σ.relation?) (places.filterMap σ'.relation?) :=
  List.rel_filterMap (R := Eq) (fun place _ heq => heq ▸ h.relation? place)
    (List.forall₂_same.mpr fun _ _ => rfl)

/-- What both draw, both hold. -/
theorem draw {op op' : Supply Held} (hop : Supply.Same ρ (Held.Renamed ρ) op op') :
    Session.Twin ρ (σ.draw op) (σ'.draw op') := by
  obtain ⟨hresult, hnext⟩ := hop _ _ h.next
  exact ⟨hnext, .cons hresult h.held⟩

end Session.Twin

/-! ## Programs -/

/-- What a caller makes of the values held. In sessions that are the same under other ids it is the
same under these ids: an id is used only as it was given. -/
structure Made {α : Type} (same : Renaming → α → α → Prop) where
  make : Session → α
  same_make : ∀ {ρ σ σ'}, Session.Twin ρ σ σ' → same ρ (make σ) (make σ')

/-- A building step. Values are taken from the given places. -/
inductive Step where
  /-- So many ids are drawn elsewhere. -/
  | elsewhere (count : Nat)
  -- Sources.
  | tableSource (name : String)
  | querySource (query : Nat) (name : Option String)
  | nameSource (source : Nat) (label : Alias)
  | forkSource (source : Nat)
  -- What a held value is made of.
  | sourceOf (query : Nat)
  | baseOf (source : Nat)
  | queryOf (source : Nat)
  | targetOf (relation : Nat)
  | relationOf (source position : Nat)
  | relationBelow (relation position : Nat)
  -- Relations.
  | foreignKey (name table : String) (mapping : List (String × String))
  | toTable (name table : String) (condition : Made Condition.Renamed)
  | toQuery (name : String) (query : Nat) (condition : Made Condition.Renamed)
  | forkRelation (relation : Nat)
  | aliasRelation (relation : Nat) (name : String)
  | restrictRelation (relation : Nat) (condition : Made Condition.Renamed)
  | selectRelation (relation : Nat) (selection : Made Selection.Renamed)
  | attachRelation (relation : Nat) (kind : JoinKind) (included : Bool) (relations : List Nat)
  -- Queries.
  | emptyQuery
  | ofSource (source : Nat)
  | table (name : String)
  | ofQuery (query : Nat) (name : Option String)
  | aliased (query : Nat) (name : String)
  | select (query : Nat)
      (selection : Made fun ρ => List.Forall₂ (ResultColumn.Renamed ρ))
  | dedup (query : Nat)
  | restrict (query : Nat) (condition : Made Expr.Renamed)
  | group (query : Nat) (keys : Made fun ρ => List.Forall₂ (Expr.Renamed ρ))
  | restrictGroups (query : Nat) (condition : Made Expr.Renamed)
  | order (query : Nat) (orderings : Made fun ρ => List.Forall₂ (OrderingTerm.Renamed ρ))
  | reverse (query : Nat)
  | take (query : Nat) (count : Nat) (offset : Option Nat)
  | attach (query : Nat) (kind : JoinKind) (included : Bool) (relations : List Nat)
  | countQuery (query : Nat)

namespace Step

/-- The query inside a source, if it has one. -/
def inner? : Source → Option Query
  | .subquery _ q _ => some q
  | _ => none

/-- The query inside a source is the same. -/
theorem inner?_renamed {s s' : Source} (h : s.Renamed ρ s') :
    Option.Rel (Query.Renamed ρ) (inner? s) (inner? s') := by
  cases h with
  | table => exact .none
  | subquery _ hq _ => exact .some hq
  | joinTree => exact .none

/-- What the step draws and gives, if the values that it takes are held. -/
def op (σ : Session) : Step → Option (Supply Held)
  | .elsewhere _ => none
  | .tableSource name => some (.source <$> Source.ofTable name)
  | .querySource query name =>
    (σ.query? query).map fun q => .source <$> Source.ofQuery q (name.map .given)
  | .nameSource source label =>
    (σ.source? source).map fun s => pure (.source (s.setAlias label))
  | .forkSource source => (σ.source? source).map fun s => .source <$> s.fork
  | .sourceOf query =>
    ((σ.query? query).bind (·.source)).map fun s => pure (.source s)
  | .baseOf source => (σ.source? source).map fun s => pure (.source s.base)
  | .queryOf source => ((σ.source? source).bind inner?).map fun q => pure (.query q)
  | .targetOf relation => (σ.relation? relation).map fun r => pure (.source r.target)
  | .relationOf source position =>
    ((σ.source? source).bind fun s => s.joins[position]?).map fun j => pure (.relation j.relation)
  | .relationBelow relation position =>
    ((σ.relation? relation).bind fun r => r.joins[position]?).map fun j =>
      pure (.relation j.relation)
  | .foreignKey name target mapping =>
    some (.relation <$> Relation.foreignKey name target mapping)
  | .toTable name target condition =>
    some (.relation <$> Relation.toTable name target (condition.make σ))
  | .toQuery name query condition =>
    (σ.query? query).map fun q => .relation <$> Relation.toQuery name q (condition.make σ)
  | .forkRelation relation => (σ.relation? relation).map fun r => .relation <$> r.fork
  | .aliasRelation relation name =>
    (σ.relation? relation).map fun r => .relation <$> r.aliased name
  | .restrictRelation relation condition =>
    (σ.relation? relation).map fun r => pure (.relation (r.restrict (condition.make σ)))
  | .selectRelation relation selection =>
    (σ.relation? relation).map fun r => pure (.relation (r.select (selection.make σ)))
  | .attachRelation relation kind included relations =>
    (σ.relation? relation).map fun r =>
      .relation <$> r.attach kind included (relations.filterMap σ.relation?)
  | .emptyQuery => some (pure (.query .empty))
  | .ofSource source => (σ.source? source).map fun s => pure (.query (.ofSource s))
  | .table name => some (.query <$> Query.table name)
  | .ofQuery query name => (σ.query? query).map fun q => .query <$> Query.ofQuery q name
  | .aliased query name => (σ.query? query).map fun q => pure (.query (q.aliased name))
  | .select query selection =>
    (σ.query? query).map fun q => pure (.query (q.select (selection.make σ)))
  | .dedup query => (σ.query? query).map fun q => pure (.query q.dedup)
  | .restrict query condition =>
    (σ.query? query).map fun q => pure (.query (q.restrict (condition.make σ)))
  | .group query keys => (σ.query? query).map fun q => pure (.query (q.group (keys.make σ)))
  | .restrictGroups query condition =>
    (σ.query? query).map fun q => pure (.query (q.restrictGroups (condition.make σ)))
  | .order query orderings =>
    (σ.query? query).map fun q => pure (.query (q.order (orderings.make σ)))
  | .reverse query => (σ.query? query).map fun q => pure (.query q.reverse)
  | .take query count offset => (σ.query? query).map fun q => pure (.query (q.take count offset))
  | .attach query kind included relations =>
    (σ.query? query).map fun q =>
      .query <$> q.attach kind included (relations.filterMap σ.relation?)
  | .countQuery query => (σ.query? query).map fun q => .query <$> q.countQuery

/-- The session after the step. A step that takes what is not held does nothing. -/
def run (step : Step) (σ : Session) : Session :=
  match step with
  | .elsewhere count => ⟨σ.next + count, σ.held⟩
  | step => (step.op σ).elim σ σ.draw

end Step

/-- The session after the steps. -/
def Program.run (program : List Step) (σ : Session) : Session :=
  program.foldl (fun σ step => step.run σ) σ

/-! ## Runs -/

namespace Step

variable {σ σ' : Session}

/-- In sessions that are the same under other ids, a step does the same. -/
theorem op_renamed (h : Session.Twin ρ σ σ') (step : Step) :
    Option.Rel (Supply.Same ρ (Held.Renamed ρ)) (step.op σ) (step.op σ') := by
  cases step with
  | elsewhere => exact .none
  | tableSource name => exact .some (.map (Source.ofTable_renamed name) .source)
  -- A step that takes a value does nothing where none is held, and that is so on both sides.
  | querySource query name =>
      exact rel_map (h.query? query) fun hq => .map (Source.ofQuery_renamed hq _) .source
  | nameSource source label =>
      exact rel_map (h.source? source) fun hs => .pure (.source (Source.setAlias_renamed label hs))
  | forkSource source =>
      exact rel_map (h.source? source) fun hs => .map (Source.fork_renamed _ hs) .source
  | sourceOf query =>
      exact rel_map (rel_bind (h.query? query) fun hq => hq.source) fun hs => .pure (.source hs)
  | baseOf source => exact rel_map (h.source? source) fun hs => .pure (.source hs.base)
  | queryOf source =>
      exact rel_map (rel_bind (h.source? source) inner?_renamed) fun hq => .pure (.query hq)
  | targetOf relation =>
      exact rel_map (h.relation? relation) fun hr => .pure (.source hr.target)
  | relationOf source position =>
      exact rel_map (rel_bind (h.source? source) fun hs => rel_getElem? hs.joins position)
        fun hj => .pure (.relation hj.relation)
  | relationBelow relation position =>
      exact rel_map (rel_bind (h.relation? relation) fun hr => rel_getElem? hr.joins position)
        fun hj => .pure (.relation hj.relation)
  | foreignKey name target mapping =>
      exact .some (.map (Relation.foreignKey_renamed name target mapping) .relation)
  | toTable name target condition =>
      exact .some (.map (Relation.toTable_renamed (condition.same_make h) name target) .relation)
  | toQuery name query condition =>
      exact rel_map (h.query? query) fun hq =>
        .map (Relation.toQuery_renamed (condition.same_make h) name hq) .relation
  | forkRelation relation =>
      exact rel_map (h.relation? relation) fun hr => .map (Relation.fork_renamed _ hr) .relation
  | aliasRelation relation name =>
      exact rel_map (h.relation? relation) fun hr =>
        .map (Relation.aliased_renamed hr name) .relation
  | restrictRelation relation condition =>
      exact rel_map (h.relation? relation) fun hr =>
        .pure (.relation (Relation.restrict_renamed (condition.same_make h) hr))
  | selectRelation relation selection =>
      exact rel_map (h.relation? relation) fun hr =>
        .pure (.relation (Relation.select_renamed hr (selection.same_make h)))
  | attachRelation relation kind included relations =>
      exact rel_map (h.relation? relation) fun hr =>
        .map (Relation.attach_renamed hr kind included (h.relations relations)) .relation
  | emptyQuery => exact .some (.pure (.query Query.empty_renamed))
  | ofSource source =>
      exact rel_map (h.source? source) fun hs => .pure (.query (Query.ofSource_renamed hs))
  | table name => exact .some (.map (Query.table_renamed name) .query)
  | ofQuery query name =>
      exact rel_map (h.query? query) fun hq => .map (Query.ofQuery_renamed hq name) .query
  | aliased query name =>
      exact rel_map (h.query? query) fun hq => .pure (.query (Query.aliased_renamed hq name))
  | select query selection =>
      exact rel_map (h.query? query) fun hq =>
        .pure (.query (Query.select_renamed hq (selection.same_make h)))
  | dedup query => exact rel_map (h.query? query) fun hq => .pure (.query (Query.dedup_renamed hq))
  | restrict query condition =>
      exact rel_map (h.query? query) fun hq =>
        .pure (.query (Query.restrict_renamed hq (condition.same_make h)))
  | group query keys =>
      exact rel_map (h.query? query) fun hq =>
        .pure (.query (Query.group_renamed hq (keys.same_make h)))
  | restrictGroups query condition =>
      exact rel_map (h.query? query) fun hq =>
        .pure (.query (Query.restrictGroups_renamed hq (condition.same_make h)))
  | order query orderings =>
      exact rel_map (h.query? query) fun hq =>
        .pure (.query (Query.order_renamed hq (orderings.same_make h)))
  | reverse query =>
      exact rel_map (h.query? query) fun hq => .pure (.query (Query.reverse_renamed hq))
  | take query count offset =>
      exact rel_map (h.query? query) fun hq => .pure (.query (Query.take_renamed hq count offset))
  | attach query kind included relations =>
      exact rel_map (h.query? query) fun hq =>
        .map (Query.attach_renamed hq kind included (h.relations relations)) .query
  | countQuery query =>
      exact rel_map (h.query? query) fun hq => .map (Query.countQuery_renamed hq) .query

/-- A step keeps sessions the same under other ids. -/
theorem run_twin (h : Session.Twin ρ σ σ') (step : Step) :
    Session.Twin ρ (step.run σ) (step.run σ') := by
  have hop := step.op_renamed h
  have hdraw : Session.Twin ρ ((step.op σ).elim σ σ.draw) ((step.op σ').elim σ' σ'.draw) := by
    generalize step.op σ = op, step.op σ' = op' at hop
    cases hop with
    | none => exact h
    | some hop => exact h.draw hop
  cases step with
  | elsewhere count => exact ⟨h.next.skip count, h.held⟩
  | _ => exact hdraw

end Step

/-- **A program keeps sessions the same under other ids.** -/
theorem Program.run_twin (program : List Step) {σ σ' : Session} (h : Session.Twin ρ σ σ') :
    Session.Twin ρ (Program.run program σ) (Program.run program σ') := by
  induction program generalizing σ σ' with
  | nil => exact h
  | cons step rest ih => exact ih (Step.run_twin h step)

end RelationalQuery
