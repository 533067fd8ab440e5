/-
  RelationalQuery.Proofs.Building.Session — every run of the building operations.

  A caller starts with nothing and holds what each operation gave. An operation takes values that
  are held and adds one more; since nothing is taken back, every value can be used again, as often
  as the caller likes. Expressions are made of anything, but the queries in them are held.

  The conditions and selections of a relation are written by the caller as functions of the sources
  that they are given, and what they build, they build when they are called. So for each argument
  there is a session of its own in which their queries are held: one that repeats what led to
  the values they use, and draws its own ids from wherever the supply then stands.

  Main definitions:
    * `Held`, `Session`: what a caller holds, and the next unused id.
    * `Session.Reachable`: the sessions that operations lead to.
-/

import RelationalQuery.Proofs.Building.Parts
import RelationalQuery.Select.Count

namespace RelationalQuery

/-- A value that building gives. -/
inductive Held where
  | query (q : Query)
  | source (s : Source)
  | relation (r : Relation)

/-- The next unused id, and the values held, the latest first. -/
structure Session where
  next : Nat
  held : List Held

namespace Session

/-- One more value, for which nothing was drawn. -/
def hold (σ : Session) (v : Held) : Session := ⟨σ.next, v :: σ.held⟩

/-- One more value, after what was drawn for it. -/
def draw (σ : Session) (op : Supply Held) : Session :=
  ⟨(op.run σ.next).2, (op.run σ.next).1 :: σ.held⟩

/-- The queries are held. -/
def Knows (σ : Session) (queries : List Query) : Prop := ∀ p ∈ queries, .query p ∈ σ.held

/-- The sessions that building operations lead to, in any order. -/
inductive Reachable : Session → Prop
  | start : Reachable ⟨0, []⟩
  /-- Ids are drawn elsewhere. -/
  | elsewhere {σ : Session} (h : σ.Reachable) {next : Nat} (hnext : σ.next ≤ next) :
      Reachable ⟨next, σ.held⟩
  -- Sources.
  | tableSource {σ : Session} (h : σ.Reachable) (name : String) :
      Reachable (σ.draw (.source <$> Source.ofTable name))
  | querySource {σ : Session} (h : σ.Reachable) {q : Query} (hq : .query q ∈ σ.held)
      (name : Option String) :
      Reachable (σ.draw (.source <$> Source.ofQuery q (name.map .given)))
  | nameSource {σ : Session} (h : σ.Reachable) {s : Source} (hs : .source s ∈ σ.held)
      (label : Alias) : Reachable (σ.hold (.source (s.setAlias label)))
  | forkSource {σ : Session} (h : σ.Reachable) {s : Source} (hs : .source s ∈ σ.held) :
      Reachable (σ.draw (.source <$> s.fork))
  -- What a held value is made of.
  | sourceOf {σ : Session} (h : σ.Reachable) {q : Query} (hq : .query q ∈ σ.held) {s : Source}
      (hs : q.source = some s) : Reachable (σ.hold (.source s))
  | baseOf {σ : Session} (h : σ.Reachable) {s : Source} (hs : .source s ∈ σ.held) :
      Reachable (σ.hold (.source s.base))
  | queryOf {σ : Session} (h : σ.Reachable) {id : SourceId} {q : Query} {label : Option Alias}
      (hs : .source (.subquery id q label) ∈ σ.held) : Reachable (σ.hold (.query q))
  | targetOf {σ : Session} (h : σ.Reachable) {r : Relation} (hr : .relation r ∈ σ.held) :
      Reachable (σ.hold (.source r.target))
  | relationOf {σ : Session} (h : σ.Reachable) {s : Source} (hs : .source s ∈ σ.held) {j : Join}
      (hj : j ∈ s.joins) : Reachable (σ.hold (.relation j.relation))
  | relationBelow {σ : Session} (h : σ.Reachable) {r : Relation} (hr : .relation r ∈ σ.held)
      {j : Join} (hj : j ∈ r.joins) : Reachable (σ.hold (.relation j.relation))
  -- Relations.
  | foreignKey {σ : Session} (h : σ.Reachable) (name table : String)
      (mapping : List (String × String)) :
      Reachable (σ.draw (.relation <$> Relation.foreignKey name table mapping))
  | toTable {σ : Session} (h : σ.Reachable) (name table : String)
      (condition : SourceId → SourceId → Expr) (called : SourceId → SourceId → Session)
      (hcalled : ∀ left right, (called left right).Reachable)
      (hknown : ∀ left right, (called left right).Knows (condition left right).subqueries) :
      Reachable (σ.draw (.relation <$> Relation.toTable name table condition))
  | toQuery {σ : Session} (h : σ.Reachable) (name : String) {q : Query} (hq : .query q ∈ σ.held)
      (condition : SourceId → SourceId → Expr) (called : SourceId → SourceId → Session)
      (hcalled : ∀ left right, (called left right).Reachable)
      (hknown : ∀ left right, (called left right).Knows (condition left right).subqueries) :
      Reachable (σ.draw (.relation <$> Relation.toQuery name q condition))
  | forkRelation {σ : Session} (h : σ.Reachable) {r : Relation} (hr : .relation r ∈ σ.held) :
      Reachable (σ.draw (.relation <$> r.fork))
  | aliasRelation {σ : Session} (h : σ.Reachable) {r : Relation} (hr : .relation r ∈ σ.held)
      (name : String) : Reachable (σ.draw (.relation <$> r.aliased name))
  | restrictRelation {σ : Session} (h : σ.Reachable) {r : Relation} (hr : .relation r ∈ σ.held)
      (condition : SourceId → SourceId → Expr) (called : SourceId → SourceId → Session)
      (hcalled : ∀ left right, (called left right).Reachable)
      (hknown : ∀ left right, (called left right).Knows (condition left right).subqueries) :
      Reachable (σ.hold (.relation (r.restrict condition)))
  | selectRelation {σ : Session} (h : σ.Reachable) {r : Relation} (hr : .relation r ∈ σ.held)
      (selection : SourceId → List ResultColumn) (called : SourceId → Session)
      (hcalled : ∀ right, (called right).Reachable)
      (hknown : ∀ right, (called right).Knows
        ((selection right).flatMap ResultColumn.subqueries)) :
      Reachable (σ.hold (.relation (r.select selection)))
  | attachRelation {σ : Session} (h : σ.Reachable) {r : Relation} (hr : .relation r ∈ σ.held)
      (kind : JoinKind) (included : Bool) (relations : List Relation)
      (hrelations : ∀ other ∈ relations, .relation other ∈ σ.held) :
      Reachable (σ.draw (.relation <$> r.attach kind included relations))
  -- Queries.
  | emptyQuery {σ : Session} (h : σ.Reachable) : Reachable (σ.hold (.query .empty))
  | ofSource {σ : Session} (h : σ.Reachable) {s : Source} (hs : .source s ∈ σ.held) :
      Reachable (σ.hold (.query (.ofSource s)))
  | table {σ : Session} (h : σ.Reachable) (name : String) :
      Reachable (σ.draw (.query <$> Query.table name))
  | ofQuery {σ : Session} (h : σ.Reachable) {q : Query} (hq : .query q ∈ σ.held)
      (name : Option String) : Reachable (σ.draw (.query <$> Query.ofQuery q name))
  | aliased {σ : Session} (h : σ.Reachable) {q : Query} (hq : .query q ∈ σ.held) (name : String) :
      Reachable (σ.hold (.query (q.aliased name)))
  | select {σ : Session} (h : σ.Reachable) {q : Query} (hq : .query q ∈ σ.held)
      (selection : List ResultColumn)
      (hknown : σ.Knows (selection.flatMap ResultColumn.subqueries)) :
      Reachable (σ.hold (.query (q.select selection)))
  | dedup {σ : Session} (h : σ.Reachable) {q : Query} (hq : .query q ∈ σ.held) :
      Reachable (σ.hold (.query q.dedup))
  | restrict {σ : Session} (h : σ.Reachable) {q : Query} (hq : .query q ∈ σ.held)
      (condition : Expr) (hknown : σ.Knows condition.subqueries) :
      Reachable (σ.hold (.query (q.restrict condition)))
  | group {σ : Session} (h : σ.Reachable) {q : Query} (hq : .query q ∈ σ.held)
      (keys : List Expr) (hknown : σ.Knows (keys.flatMap Expr.subqueries)) :
      Reachable (σ.hold (.query (q.group keys)))
  | restrictGroups {σ : Session} (h : σ.Reachable) {q : Query} (hq : .query q ∈ σ.held)
      (condition : Expr) (hknown : σ.Knows condition.subqueries) :
      Reachable (σ.hold (.query (q.restrictGroups condition)))
  | order {σ : Session} (h : σ.Reachable) {q : Query} (hq : .query q ∈ σ.held)
      (orderings : List OrderingTerm)
      (hknown : σ.Knows (orderings.flatMap fun term => term.expr.subqueries)) :
      Reachable (σ.hold (.query (q.order orderings)))
  | reverse {σ : Session} (h : σ.Reachable) {q : Query} (hq : .query q ∈ σ.held) :
      Reachable (σ.hold (.query q.reverse))
  | take {σ : Session} (h : σ.Reachable) {q : Query} (hq : .query q ∈ σ.held) (count : Nat)
      (offset : Option Nat) : Reachable (σ.hold (.query (q.take count offset)))
  | attach {σ : Session} (h : σ.Reachable) {q : Query} (hq : .query q ∈ σ.held) (kind : JoinKind)
      (included : Bool) (relations : List Relation)
      (hrelations : ∀ r ∈ relations, .relation r ∈ σ.held) :
      Reachable (σ.draw (.query <$> q.attach kind included relations))
  | countQuery {σ : Session} (h : σ.Reachable) {q : Query} (hq : .query q ∈ σ.held) :
      Reachable (σ.draw (.query <$> q.countQuery))

end Session

end RelationalQuery
