/-
  RelationalQuery.Proofs.Building.Separation — a fork stands apart from what it was forked from.

  A fork, of whatever shape, draws one id for each node of the FROM tree, in the order of the tree,
  and keeps everything else. So none of the new ids belongs to anything that was drawn before. It
  does not enter the queries of subquery sources, though: these are shared, with all the sources
  inside.

  Main definitions:
    * `Source.inside`, `Relation.inside`: the nodes of a FROM tree, and the queries that it reads.
    * `Inside.Reaches`: a source has the id, at any depth.
    * `Source.unnumbered`, `Relation.unnumbered`: everything but the ids of the FROM tree.

  Main statements:
    * `Source.fork_numbered`, `Relation.fork_numbered`: what a fork draws.
    * `fork_stands_apart`: a fork keeps everything else and shares only what is in subqueries.
    * `leaderRows_shared`: a fork of a subquery source shares the table inside.
-/

import Mathlib.Data.List.Nodup
import RelationalQuery.Proofs.Building.Fork
import RelationalQuery.Proofs.Building.Reachable
import RelationalQuery.Select.Rendering

namespace RelationalQuery

/-! ## What is inside a source -/

/-- What a FROM tree is made of: the ids of its nodes in order, join trees among them, and the
queries of its subquery sources. -/
structure Inside where
  ids : List SourceId
  queries : List Query

namespace Inside

def none : Inside := ⟨[], []⟩

/-- What two neighbours are made of. -/
def beside (a b : Inside) : Inside := ⟨a.ids ++ b.ids, a.queries ++ b.queries⟩

/-- The same nodes below one more. -/
def under (id : SourceId) (a : Inside) : Inside := ⟨id :: a.ids, a.queries⟩

end Inside

mutual

def Source.inside : Source → Inside
  | .table id _ _ => ⟨[id], []⟩
  | .subquery id query _ => ⟨[id], [query]⟩
  | .joinTree id left joins => (left.inside.beside (Join.inside joins)).under id

def Relation.inside : Relation → Inside
  | ⟨_, target, _, _, _, joins⟩ => target.inside.beside (Join.inside joins)

def Join.inside : List Join → Inside
  | [] => .none
  | ⟨_, _, relation⟩ :: rest => relation.inside.beside (Join.inside rest)

end

/-- A source inside the query has the id: in its FROM tree, in a subquery there, or in a subquery of
an expression. -/
inductive Query.Reaches (id : SourceId) : Query → Prop
  | tree {q : Query} {s : Source} (hs : q.source = some s) (h : id ∈ s.inside.ids) : q.Reaches id
  | inner {q p : Query} {s : Source} (hs : q.source = some s) (hp : p ∈ s.inside.queries)
      (h : p.Reaches id) : q.Reaches id
  | nested {q p : Query} (hp : p ∈ q.subqueries) (h : p.Reaches id) : q.Reaches id

/-- The id belongs to one of the nodes or to a source in one of the queries. -/
def Inside.Reaches (a : Inside) (id : SourceId) : Prop :=
  id ∈ a.ids ∨ ∃ p ∈ a.queries, p.Reaches id

mutual

/-- The source without the ids of its FROM tree. -/
def Source.unnumbered : Source → Source
  | .table _ name label => .table ⟨0⟩ name label
  | .subquery _ query label => .subquery ⟨0⟩ query label
  | .joinTree _ left joins => .joinTree ⟨0⟩ left.unnumbered (Join.unnumberedAll joins)

/-- The relation without the ids of the FROM tree below it. -/
def Relation.unnumbered : Relation → Relation
  | ⟨name, target, mapping, condition, selection, joins⟩ =>
    ⟨name, target.unnumbered, mapping, condition, selection, Join.unnumberedAll joins⟩

def Join.unnumberedAll : List Join → List Join
  | [] => []
  | ⟨included, kind, relation⟩ :: rest =>
    ⟨included, kind, relation.unnumbered⟩ :: Join.unnumberedAll rest

end

/-! ## What a fork draws -/

/-- So many ids, one after the other from `n` on. -/
def SourceId.run (n count : Nat) : List SourceId := (List.range' n count).map SourceId.mk

namespace SourceId

theorem run_succ (n count : Nat) : run n (count + 1) = ⟨n⟩ :: run (n + 1) count := by
  rw [run, run, List.range'_succ, List.map_cons]

/-- Ids that are drawn in two runs, one after the other. -/
theorem run_append (n a b : Nat) : run n (a + b) = run n a ++ run (n + a) b := by
  rw [run, run, run, ← List.map_append, List.range'_append_1]

theorem le_of_mem_run {n count : Nat} {id : SourceId} (h : id ∈ run n count) : n ≤ id.index := by
  obtain ⟨index, hindex, rfl⟩ := List.mem_map.mp h
  exact (List.mem_range'_1.mp hindex).1

/-- No id is drawn twice. -/
theorem nodup_run (n count : Nat) : (run n count).Nodup :=
  List.Nodup.map (fun _ _ h => SourceId.mk.inj h) List.nodup_range'

end SourceId

namespace Inside

/-- The same nodes under the ids from `n` on. -/
def numbered (n : Nat) (a : Inside) : Inside := ⟨SourceId.run n a.ids.length, a.queries⟩

/-- Beside one another, the first part draws its ids first. -/
theorem numbered_beside (n : Nat) (a b : Inside) :
    (a.beside b).numbered n = (a.numbered n).beside (b.numbered (n + a.ids.length)) := by
  simp only [numbered, beside, List.length_append, SourceId.run_append]

/-- A node draws its own id before those below it. -/
theorem numbered_under (n : Nat) (id : SourceId) (a : Inside) :
    (a.under id).numbered n = (a.numbered (n + 1)).under ⟨n⟩ := by
  simp only [numbered, under, List.length_cons, SourceId.run_succ]

/-- Nodes with ids of their own: no two have the same, and none has one that is reached from the
nodes they stand for. Only the queries inside both are shared. -/
structure Apart (a b : Inside) : Prop where
  distinct : b.ids.Nodup
  fresh : ∀ id ∈ b.ids, ¬ a.Reaches id
  queries : b.queries = a.queries

/-- **The next ids of a supply that has passed all ids reached are apart from these.** -/
theorem numbered_apart {a : Inside} {n : Nat} (h : ∀ id, a.Reaches id → id.index < n) :
    a.Apart (a.numbered n) where
  distinct := SourceId.nodup_run ..
  fresh _ hid hreached := Nat.not_lt.mpr (SourceId.le_of_mem_run hid) (h _ hreached)
  queries := rfl

/-- What stands apart reaches no id of the other, other than in the queries that they share. -/
theorem Apart.reaches_iff {a b : Inside} (h : a.Apart b) {id : SourceId} (hid : b.Reaches id) :
    a.Reaches id ↔ ∃ p ∈ a.queries, p.Reaches id := by
  refine ⟨fun hreached => ?_, Or.inr⟩
  rcases hid with hnode | hinner
  · exact (h.fresh id hnode hreached).elim
  · rwa [h.queries] at hinner

end Inside

mutual

/-- **The nodes of a forked source are numbered on from the supply**, and all else is kept. -/
theorem Source.fork_numbered : (s : Source) → (n : Nat) →
    ∃ forked, s.fork.run n = (forked, n + s.inside.ids.length) ∧
      forked.inside = s.inside.numbered n ∧ forked.unnumbered = s.unnumbered
  | .table _ name label, n => ⟨_, rfl, rfl, rfl⟩
  | .subquery _ query label, n => ⟨_, rfl, rfl, rfl⟩
  | .joinTree id left joins, n => by
      -- The tree draws one id for itself, then the base its ids, then the joins theirs.
      obtain ⟨forkedLeft, hleft, hleftInside, hleftRest⟩ := left.fork_numbered (n + 1)
      obtain ⟨forkedJoins, hjoins, hjoinsInside, hjoinsRest⟩ :=
        Join.forkAll_numbered joins (n + 1 + left.inside.ids.length)
      have hcount : n + (Source.joinTree id left joins).inside.ids.length =
          n + 1 + left.inside.ids.length + (Join.inside joins).ids.length := by
        rw [Source.inside, Inside.under, Inside.beside, List.length_cons, List.length_append]
        omega
      refine ⟨.joinTree ⟨n⟩ forkedLeft forkedJoins, ?_, ?_, ?_⟩
      · rw [Source.fork, Supply.run_bind (rfl : SourceId.fresh.run n = (⟨n⟩, n + 1)),
          Supply.run_bind hleft, Supply.run_bind hjoins, hcount]
        rfl
      · rw [Source.inside, Source.inside, hleftInside, hjoinsInside, Inside.numbered_under,
          Inside.numbered_beside]
      · rw [Source.unnumbered, Source.unnumbered, hleftRest, hjoinsRest]

/-- **The nodes below a forked relation are numbered on from the supply**, and all else is kept. -/
theorem Relation.fork_numbered : (r : Relation) → (n : Nat) →
    ∃ forked, r.fork.run n = (forked, n + r.inside.ids.length) ∧
      forked.inside = r.inside.numbered n ∧ forked.unnumbered = r.unnumbered
  | ⟨name, target, mapping, condition, selection, joins⟩, n => by
      -- The supply is passed on from the target to the joins below it.
      obtain ⟨forkedTarget, htarget, htargetInside, htargetRest⟩ := target.fork_numbered n
      obtain ⟨forkedJoins, hjoins, hjoinsInside, hjoinsRest⟩ :=
        Join.forkAll_numbered joins (n + target.inside.ids.length)
      refine ⟨⟨name, forkedTarget, mapping, condition, selection, forkedJoins⟩, ?_, ?_, ?_⟩
      · rw [Relation.fork, Supply.run_bind htarget, Supply.run_bind hjoins, Relation.inside,
          Inside.beside, List.length_append, ← Nat.add_assoc]
        rfl
      · rw [Relation.inside, Relation.inside, htargetInside, hjoinsInside, Inside.numbered_beside]
      · rw [Relation.unnumbered, Relation.unnumbered, htargetRest, hjoinsRest]

/-- Forked joins draw their ids in order, one for each node, and nothing else changes. -/
theorem Join.forkAll_numbered : (joins : List Join) → (n : Nat) →
    ∃ forked, (Join.forkAll joins).run n = (forked, n + (Join.inside joins).ids.length) ∧
      Join.inside forked = (Join.inside joins).numbered n ∧
      Join.unnumberedAll forked = Join.unnumberedAll joins
  | [], n => ⟨[], rfl, rfl, rfl⟩
  | ⟨included, kind, relation⟩ :: rest, n => by
      obtain ⟨own, hown, hownInside, hownRest⟩ := relation.fork_numbered n
      obtain ⟨others, hothers, hothersInside, hothersRest⟩ :=
        Join.forkAll_numbered rest (n + relation.inside.ids.length)
      refine ⟨⟨included, kind, own⟩ :: others, ?_, ?_, ?_⟩
      · rw [Join.forkAll, Supply.run_bind hown, Supply.run_bind hothers, Join.inside,
          Inside.beside, List.length_append, ← Nat.add_assoc]
        rfl
      · rw [Join.inside, Join.inside, hownInside, hothersInside, Inside.numbered_beside]
      · rw [Join.unnumberedAll, Join.unnumberedAll, hownRest, hothersRest]

end

/-! ## What a fork shares -/

/-- **A fork stands apart, but for the queries inside.** Of every source and every relation, of any
shape, that the supply has passed: the fork has the same tables, aliases, logical names, mappings,
conditions, selections, join kinds and included flags in the same order, and the same queries
in its subquery sources. The nodes of its FROM tree have ids of their own, which no source has
that is reached from the original. So an id reached from the fork is reached from the original
exactly if it is in one of the queries of subquery sources. -/
theorem fork_stands_apart (n : Nat) :
    (∀ s : Source, (∀ id, s.inside.Reaches id → id.index < n) →
      (s.fork.run n).1.unnumbered = s.unnumbered ∧
      s.inside.Apart (s.fork.run n).1.inside ∧
      ∀ id, (s.fork.run n).1.inside.Reaches id →
        (s.inside.Reaches id ↔ ∃ p ∈ s.inside.queries, p.Reaches id)) ∧
    ∀ r : Relation, (∀ id, r.inside.Reaches id → id.index < n) →
      (r.fork.run n).1.unnumbered = r.unnumbered ∧
      r.inside.Apart (r.fork.run n).1.inside ∧
      ∀ id, (r.fork.run n).1.inside.Reaches id →
        (r.inside.Reaches id ↔ ∃ p ∈ r.inside.queries, p.Reaches id) := by
  constructor
  · intro s hpassed
    obtain ⟨forked, hrun, hinside, hrest⟩ := s.fork_numbered n
    -- The new ids are all drawn later than any that is reached from the original.
    have hapart : s.inside.Apart forked.inside := hinside ▸ Inside.numbered_apart hpassed
    rw [hrun]
    exact ⟨hrest, hapart, fun _ => hapart.reaches_iff⟩
  · intro r hpassed
    obtain ⟨forked, hrun, hinside, hrest⟩ := r.fork_numbered n
    have hapart : r.inside.Apart forked.inside := hinside ▸ Inside.numbered_apart hpassed
    rw [hrun]
    exact ⟨hrest, hapart, fun _ => hapart.reaches_iff⟩

/-! ## A subquery in two places -/

/-- Relation to the rows of a query over people. -/
def toLeaders : Supply Relation := do
  let person ← Query.table "persons"
  Relation.toQuery "leaders" person fun left right =>
    .equal (.column left "leader_id") (.column right "id")

def leaderRows : Relation := (toLeaders.run 0).1

/-- Inside are the subquery and the table that it reads. -/
theorem reaches_leaderRows {id : SourceId} :
    leaderRows.inside.Reaches id ↔ id = ⟨1⟩ ∨ id = ⟨0⟩ := by
  refine or_congr List.mem_singleton ⟨?_, ?_⟩
  · rintro ⟨p, hp, hreached⟩
    cases List.mem_singleton.mp hp
    cases hreached with
    | tree hs h =>
        cases hs
        exact List.mem_singleton.mp h
    | inner hs hp _ =>
        cases hs
        cases hp
    | nested hp _ => cases hp
  · rintro rfl
    exact ⟨_, List.mem_singleton_self _, .tree rfl (List.mem_singleton_self _)⟩

/-- The fork of the relation, and that of its target, get the next ids. -/
theorem leaderRows_apart :
    leaderRows.inside.Apart (leaderRows.fork.run 2).1.inside ∧
    leaderRows.target.inside.Apart (leaderRows.target.fork.run 2).1.inside := by
  have hpassed : ∀ id, leaderRows.inside.Reaches id → id.index < 2 := by
    intro id hid
    rcases reaches_leaderRows.mp hid with rfl | rfl
    · exact Nat.lt_succ_self 1
    · exact Nat.zero_lt_two
  exact ⟨((fork_stands_apart 2).2 leaderRows hpassed).2.1,
    ((fork_stands_apart 2).1 leaderRows.target hpassed).2.1⟩

/-- **A fork shares the table inside a subquery**: it is reached from both. Joined to each other,
the two subqueries read a table under the same id, and no name tells it from itself. -/
theorem leaderRows_shared :
    (∃ id, (leaderRows.fork.run 2).1.inside.Reaches id ∧ leaderRows.inside.Reaches id) ∧
    ((((Query.ofSource leaderRows.target).joinOptional [leaderRows]).run 2).1.compile people).map
      BoundSql.sql = .ok ("SELECT \"leaders0\".* " ++
        "FROM (SELECT * FROM \"persons\") AS \"leaders0\" " ++
        "LEFT JOIN (SELECT * FROM \"persons\") AS \"leaders1\" " ++
        "ON (\"leaders0\".\"leader_id\" = \"leaders1\".\"id\")") := by
  refine ⟨⟨⟨0⟩, ?_, reaches_leaderRows.mpr (Or.inr rfl)⟩, by decide +kernel⟩
  exact Or.inr ⟨_, List.mem_singleton_self _, .tree rfl (List.mem_singleton_self _)⟩

end RelationalQuery
