/-
  RelationalQuery.Proofs.Statement.DistinctNames — the sources of a FROM clause have distinct names.

  Two invariants meet here. Building keeps the ids of the leaves of one FROM tree distinct, so no
  two of them are taken for one source when names are chosen; and the choice gives different ids
  different names. The walk over the statement carries both into every FROM clause in it.

  Main statement:
    * `Session.Reachable.distinct_names`: of every query that building gives.
-/

import RelationalQuery.Proofs.Building.Reachable
import RelationalQuery.Proofs.Statement.Explained
import RelationalQuery.Proofs.Statement.Writing

namespace RelationalQuery

open Sql

/-- The query itself, and all that stands in it at any depth. -/
inductive Query.Holds (q : Query) : Query → Prop
  | self : q.Holds q
  | nested {p r : Query} (h : q.Holds p) (hr : p.Nests r) : q.Holds r

/-- A query that is held by a sound one is sound. -/
theorem Query.Sound.holds {q p : Query} (hq : q.Sound) (h : q.Holds p) : p.Sound := by
  induction h with
  | self => exact hq
  | nested _ hr ih => exact ih.nested hr

/-- **The sources of a FROM clause are distinct, and have distinct names.** Of every query that
building gives, in whatever order: the leaves of each FROM tree in it are tables and subqueries
with distinct ids; and when it compiles, each FROM clause of the statement introduces names that
differ in more than ASCII case, and only its first source can have none. -/
theorem Session.Reachable.distinct_names {σ : Session} (hσ : σ.Reachable) {q : Query}
    (hq : .query q ∈ σ.held) :
    (∀ p, q.Holds p → ∀ s, p.source = some s →
      (∀ t ∈ s.leaves, t.IsLeaf) ∧ (s.leaves.map Source.id).Nodup) ∧
    ∀ schema sql, q.compile schema = .ok sql →
      ∃ statement, q.statement schema = .ok statement ∧ statement.write.build = .ok sql ∧
        ∀ leaves, .clause leaves ∈ statement.allSites → WellNamed leaves := by
  have hsound := hσ.sound hq
  constructor
  · intro p hp s hs
    have hproper := (hsound.holds hp).proper hs
    exact ⟨hproper.leaf, hproper.distinct⟩
  · intro schema sql hcompile
    obtain ⟨statement, hstatement, hbuild⟩ := Query.statement_of_compile hcompile
    refine ⟨statement, hstatement, hbuild, ?_⟩
    intro leaves hleaves
    exact Query.allSites_explained hsound hstatement (.clause leaves) hleaves

/-- People who are led: the leaders joined twice, and the subquery, have names of their own. -/
theorem ledPeople_distinct_names : ∃ sql statement, ledPeople.compile people = .ok sql ∧
    ledPeople.statement people = .ok statement ∧
    ∀ leaves, .clause leaves ∈ statement.allSites → WellNamed leaves := by
  obtain ⟨σ, hσ, hq⟩ := reachable_ledPeople
  obtain ⟨sql, hsql⟩ : ∃ sql, ledPeople.compile people = .ok sql :=
    exists_ok (by decide +kernel)
  obtain ⟨statement, hstatement, _, hleaves⟩ := (hσ.distinct_names hq).2 people sql hsql
  exact ⟨sql, statement, hsql, hstatement, hleaves⟩

end RelationalQuery
