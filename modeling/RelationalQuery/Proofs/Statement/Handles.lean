/-
  RelationalQuery.Proofs.Statement.Handles — references into a query stay valid.

  A query gives out the ids of its root and of its relations' targets, and columns are built from
  them before the query is done. Later operations wrap the FROM tree, name its base, and join more to
  it; but the ids stay those of the same leaves. So a column that was built early on is known in the
  statement that the query becomes, and is written with the name that the FROM clause introduces for
  that very leaf.

  Main definition:
    * `Sql.Statement.Calls`: a statement goes by its own name for a leaf.

  Main statements:
    * `Query.calls_of_compile`: the leaves of a statement, by their names.
    * `Session.Reachable.handles`: references stay valid through operations.
-/

import Mathlib.Data.List.Nodup
import RelationalQuery.Proofs.Building.Steps
import RelationalQuery.Proofs.Failure.Causes
import RelationalQuery.Proofs.Statement.Wiring

namespace RelationalQuery

open Sql

/-! ## Leaves by id -/

/-- The leaves below joins are their targets, one after the other. -/
theorem Join.leafIds_eq : (joins : List Join) → (∀ t ∈ Join.targets joins, t.IsLeaf) →
    Join.leafIds joins = (Join.targets joins).map Source.id
  | [], _ => rfl
  | ⟨_, _, ⟨_, target, _, _, _, joins⟩⟩ :: rest, h => by
      rw [Join.targets, Relation.targets, List.cons_append, List.forall_mem_cons,
        List.forall_mem_append] at h
      obtain ⟨htarget, hjoins, hrest⟩ := h
      -- The target of a join is a leaf, so nothing of it stands below.
      have hown : target.leafIds = [target.id] := by
        match target, htarget with
        | .table .., _ => rfl
        | .subquery .., _ => rfl
      rw [Join.leafIds, Join.targets, Relation.targets, hown, Join.leafIds_eq joins hjoins,
        Join.leafIds_eq rest hrest, List.map_append, List.map_cons]
      rfl

/-- The leaves of a FROM tree, by their ids. -/
theorem Source.leafIds_eq {s : Source} (h : ∀ t ∈ s.leaves, t.IsLeaf) :
    s.leafIds = s.leaves.map Source.id := by
  obtain ⟨hbase, htargets⟩ := List.forall_mem_cons.mp h
  match s, hbase with
  | .table .., _ => rfl
  | .subquery .., _ => rfl
  | .joinTree _ (.table ..) joins, _ => exact congrArg (_ :: ·) (Join.leafIds_eq joins htargets)
  | .joinTree _ (.subquery ..) joins, _ =>
      exact congrArg (_ :: ·) (Join.leafIds_eq joins htargets)

/-- Leaves of one id are one leaf. -/
theorem Source.Formed.eq_of_id {s : Source} (h : s.Formed) {t u : Source} (ht : t ∈ s.leaves)
    (hu : u ∈ s.leaves) (hid : t.id = u.id) : t = u :=
  List.inj_on_of_nodup_map h.distinct ht hu hid

/-! ## Names of leaves -/

namespace Sql

/-- Where a leaf of the FROM clause is meant, a statement writes the name that the clause introduces
for it: in front of every column of its own clauses, and of the star. -/
structure Statement.Calls (scope : Scope) (statement : Statement) (leaf : Leaf) : Prop where
  introduced : leaf ∈ statement.leaves
  only : ∀ other ∈ statement.leaves, other.id = leaf.id → other = leaf
  qualified : ∀ r, .reference [statement.level] r ∈ statement.allSites → r.source = leaf.id →
    r.qualifier = leaf.name
  column : ∀ name, Clauses.columnOf scope leaf.id name =
    .ok (Clauses.qualified leaf.name (.ident name))
  star : Clauses.starOf scope leaf.id = .ok (Clauses.qualified leaf.name (.token .star))

end Sql

section Names

variable {schema : Schema} {q : Query} {s : Source}

/-- The base has no name in front of its columns just when it is a subquery without one. -/
theorem Source.name?_eq_none (hbase : s.base.IsLeaf) :
    s.name? = none ↔ ∃ query, s.base = .subquery s.base.id query none := by
  match s, hbase with
  | .table .., _ => simp [Source.name?, Source.base]
  | .subquery _ _ label, _ => cases label <;> simp [Source.name?, Source.base, Source.id]
  | .joinTree _ (.table ..) _, _ => simp [Source.name?, Source.base]
  | .joinTree _ (.subquery _ _ label) _, _ =>
      cases label <;> simp [Source.name?, Source.base, Source.id]

/-- **The leaves of a statement**: each is called by the name that the FROM clause introduces for
it, which only a base can lack, and lacks just when it is a subquery without a name. -/
theorem Query.calls_of_compile (hsound : q.Sound) (hs : q.source = some s) {sql : BoundSql}
    (hcompile : q.compile schema = .ok sql) :
    ∃ scope statement, (Scope.outermost schema).enter q.occurrences = .ok scope ∧
      q.resolve scope = .ok statement ∧ statement.write.build = .ok sql ∧
      ∀ t ∈ s.leaves, statement.Calls scope (t.introduced scope) ∧
        ((t.introduced scope).name = none ↔ ∃ query, s.root = .subquery t.id query none) := by
  obtain ⟨scope, statement, hscope, hresolve, hbuild, hleaves, hwell, hfits, hnamed⟩ :=
    Query.named_of_compile hsound hs hcompile
  have hproper := hsound.proper hs
  obtain ⟨hbase, _⟩ := List.forall_mem_cons.mp hproper.leaf
  have hstatement : q.statement schema = .ok statement := by
    rw [Query.statement, hscope]
    exact hresolve
  refine ⟨scope, statement, hscope, hresolve, hbuild, fun t ht => ?_⟩
  have hmem : t.introduced scope ∈ statement.leaves := hleaves ▸ List.mem_map_of_mem ht
  have hfind : scope.find? (t.introduced scope).id = some (t.introduced scope).name :=
    hfits.find? hmem
  have hwrites : Writes [statement.level] (t.introduced scope) statement.allSites :=
    .of_explained hmem (Query.allSites_explained hsound hstatement)
  refine ⟨⟨hmem, ?_, ?_, ?_, ?_⟩, ?_⟩
  · exact fun other hother => List.inj_on_of_nodup_map hwell.ids hother hmem
  · intro r hsite hsource
    exact hwrites [] r hsite hsource (List.forall_mem_nil _)
  · intro name
    rw [Clauses.columnOf, Scope.name, hfind]
    rfl
  · rw [Clauses.starOf, Scope.name, hfind]
    rfl
  · -- The base comes first, and all that is behind it has a name.
    rw [Source.root_eq_base hbase]
    rcases List.mem_cons.mp ht with rfl | htarget
    · have hasked := Source.base_named hnamed hbase (Source.first?_base hbase)
        (Source.id_introduced scope s.base ▸ hfind)
      rw [← Source.name?_eq_none hbase, ← Option.not_isSome_iff_eq_none,
        ← Option.not_isSome_iff_eq_none, hasked]
    · have hsome : (t.introduced scope).name.isSome := by
        refine hwell.named _ ?_
        rw [hleaves, Source.leaves, List.map_cons, List.tail_cons]
        exact List.mem_map_of_mem htarget
      refine iff_of_false (fun hnone => by simp [hnone] at hsome) ?_
      rintro ⟨query, hroot⟩
      -- A target that has the id of the base would be the base.
      have hid : s.base.id = t.id := by rw [hroot]; rfl
      have hdistinct := hproper.distinct
      rw [Source.leaves, List.map_cons, List.nodup_cons] at hdistinct
      exact hdistinct.1 (hid ▸ List.mem_map_of_mem htarget)

end Names

/-! ## References through operations -/

/-- A leaf that stays where it is, under another name at most if it is the base. -/
theorem Source.Extends.leaf {s s' : Source} (h : s.Extends s') {t : Source} (ht : t ∈ s.leaves) :
    ∃ t' ∈ s'.leaves, t'.id = t.id ∧
      (t' = t ∨ t = s.base ∧ ∃ label, t' = t.setAlias label) := by
  rcases List.mem_cons.mp ht with rfl | htarget
  · refine ⟨s'.base, List.mem_cons_self .., ?_⟩
    rcases h.base with hbase | ⟨label, hbase⟩
    · exact ⟨by rw [hbase], Or.inl hbase⟩
    · exact ⟨by rw [hbase, Source.id_setAlias], Or.inr ⟨rfl, label, hbase⟩⟩
  · exact ⟨t, List.mem_cons_of_mem _ (h.targets_subset htarget), rfl, Or.inl rfl⟩

/-- What has only another name is a leaf as before. -/
theorem Source.Extends.isLeaf_base {s s' : Source} (h : s.Extends s') (hbase : s'.base.IsLeaf) :
    s.base.IsLeaf := by
  rcases h.base with heq | ⟨label, heq⟩
  · exact heq ▸ hbase
  · rw [heq] at hbase
    cases hs : s.base with
    | table => trivial
    | subquery => trivial
    | joinTree =>
        rw [hs] at hbase
        exact hbase

/-- A source that is refused is not a leaf of a FROM clause around. -/
theorem Query.of_detached {schema : Schema} {q : Query} {column : String}
    (h : q.compile schema = .error (.detachedSource column)) :
    ∃ before chain source after,
      q.allDemands schema = before ++ .reference chain source column :: after ∧
      (∀ d ∈ before, d.check schema = .ok ()) ∧ ¬InScope chain source := by
  obtain ⟨before, d, after, hdemands, hbefore, hd⟩ :=
    (Query.compile_error_iff fun name h => by cases h).mp h
  obtain ⟨chain, source, rfl, hscope, _⟩ := Demand.check_detached_iff.mp hd
  exact ⟨before, chain, source, after, hdemands, hbefore, hscope⟩

/-- **References stay valid.** An id that a query gives out, of its root or of the relation of some
name, is given out by every query that operations make of it, for the same leaf, which has another
alias at most. In the clauses of that query no column or star of it is refused: what is refused
there is another source. If the query compiles, each such column is written with the name that the
FROM clause introduces for the leaf, and without one just when the leaf is a subquery at the root
that has none. The relation of a name is the first in preorder, whatever the query, or a relation,
is called. -/
theorem Session.Reachable.handles {σ : Session} (hσ : σ.Reachable) {condition : Expr → Prop}
    {q q' : Query} (hq' : .query q' ∈ σ.held) (hleads : q.LeadsTo condition q') {r : SourceId}
    (hr : q.Handle r) :
    (∃ s s', q.source = some s ∧ q'.source = some s' ∧ q'.root? = q.root? ∧
      (∀ name, q.relation? name = some r → q'.relation? name = some r) ∧
      (∃ t ∈ s.leaves, ∃ t' ∈ s'.leaves, t.id = r ∧ t'.id = r ∧
        (t' = t ∨ t = s.base ∧ ∃ label, t' = t.setAlias label) ∧
        ∀ other ∈ s'.leaves, other.id = r → other = t') ∧
      (∀ schema column, q'.compile schema = .error (.detachedSource column) →
        ∃ before chain source after,
          q'.allDemands schema = before ++ .reference chain source column :: after ∧
          (∀ d ∈ before, d.check schema = .ok ()) ∧
          ¬(source = r ∧ ∃ frame ∈ chain, frame.leaves = Source.leafIdsOf q'.source)) ∧
      (∀ schema sql, q'.compile schema = .ok sql → ∃ scope statement leaf,
        (Scope.outermost schema).enter q'.occurrences = .ok scope ∧
        q'.resolve scope = .ok statement ∧ statement.write.build = .ok sql ∧ leaf.id = r ∧
        statement.Calls scope leaf ∧
        (leaf.name = none ↔ ∃ query, s'.root = .subquery r query none))) ∧
    (∀ (p : Query) (name : String), p.relation? name =
      (p.source.bind fun s => (Join.preorder s.joins).find? (·.name = name)).map (·.target.id)) ∧
    (∀ (p : Query) (other name : String), (p.aliased other).relation? name = p.relation? name) ∧
    ∀ (relation : Relation) (other : String) (next : Nat),
      ((relation.aliased other).run next).1.name = relation.name := by
  refine ⟨?_, Query.relation?_eq, ?_, ?_⟩
  · obtain ⟨s, hs⟩ := hr.exists_source
    obtain ⟨s', hs', hextends⟩ := hleads.extends hs
    have hsound := hσ.sound hq'
    have hproper := hsound.proper hs'
    have hbase : s.base.IsLeaf :=
      hextends.isLeaf_base (hproper.leaf _ (List.mem_cons_self ..))
    obtain ⟨t, ht, rfl⟩ : ∃ t ∈ s.leaves, t.id = r := by
      rcases hr.mem_leaves hs hbase with ⟨_, hid⟩ | ⟨t, ht, hid⟩
      · exact ⟨s.base, List.mem_cons_self .., hid⟩
      · exact ⟨t, List.mem_cons_of_mem _ ht, hid⟩
    obtain ⟨t', ht', hid, hsame⟩ := hextends.leaf ht
    refine ⟨s, s', hs, hs', hextends.root?_eq hs hs', fun name => hextends.relation?_eq hs hs',
      ⟨t, ht, t', ht', rfl, hid, hsame, ?_⟩, ?_, ?_⟩
    · exact fun other hother heq => hproper.eq_of_id hother ht' (heq.trans hid.symm)
    · intro schema column hdetached
      obtain ⟨before, chain, source, after, hdemands, hbefore, hscope⟩ :=
        Query.of_detached hdetached
      refine ⟨before, chain, source, after, hdemands, hbefore, ?_⟩
      rintro ⟨rfl, frame, hframe, hleaves⟩
      -- In a clause of the query its own FROM clause is around, and the leaf is in it.
      refine hscope ⟨frame, hframe, ?_⟩
      rw [hleaves, hs', Source.leafIdsOf, Option.map_some, Option.getD_some,
        Source.leafIds_eq hproper.leaf, ← hid]
      exact List.mem_map_of_mem ht'
    · intro schema sql hcompile
      obtain ⟨scope, statement, hscope, hresolve, hbuild, hcalls⟩ :=
        Query.calls_of_compile hsound hs' hcompile
      obtain ⟨hleaf, hname⟩ := hcalls t' ht'
      rw [hid] at hname
      exact ⟨scope, statement, t'.introduced scope, hscope, hresolve, hbuild,
        (Source.id_introduced scope t').trans hid, hleaf, hname⟩
  · intro p other name
    rw [Query.relation?_eq, Query.relation?_eq, Query.aliased]
    cases p.source with
    | none => rfl
    | some s => rw [Option.map_some, Option.bind_some, Option.bind_some, Source.joins_setAlias]
  · rintro ⟨_, _, _, _, _, _⟩ other next
    rfl

/-- People with their leaders, before anything else is said of them. -/
def peopleWithLeaders : Query := (leaders.run 0).1

/-- The first leader is asked for before the people are restricted and named, and is the first
leader of them still: a leaf of the statement, under the name that is written in front of its
columns. -/
theorem peopleWithLeaders_handles :
    peopleWithLeaders.relation? "leader" = some ⟨2⟩ ∧
    (ledPeople.aliased "p").relation? "leader" = some ⟨2⟩ ∧
    ∃ scope statement leaf, (Scope.outermost people).enter (ledPeople.aliased "p").occurrences =
        .ok scope ∧
      (ledPeople.aliased "p").resolve scope = .ok statement ∧
      leaf = ⟨⟨2⟩, some "leader0"⟩ ∧ statement.Calls scope leaf := by
  have hrelation : peopleWithLeaders.relation? "leader" = some ⟨2⟩ := by
    rw [Query.relation?_eq]
    rfl
  have hrestricted : ledPeople = peopleWithLeaders.restrict (.exists
      (((Query.table "persons").run 5).1.restrict
        (.equal (.column (some ⟨5⟩) "id") (.column (some ⟨0⟩) "leader_id")))) := rfl
  -- Restricting and naming are steps that lead on from the query.
  have hleads : peopleWithLeaders.LeadsTo (fun _ => True) (ledPeople.aliased "p") := by
    rw [hrestricted]
    exact .tail (.single (.restrict _ trivial)) (.aliased _ "p")
  obtain ⟨σ, hσ, hq⟩ := reachable_ledPeople
  have hhandles := (hσ.aliased hq "p").handles (List.mem_cons_self ..) hleads
    (Or.inr ⟨"leader", hrelation⟩)
  obtain ⟨⟨s, s', _, _, _, hname, _, _, hcompiled⟩, _⟩ := hhandles
  obtain ⟨sql, hsql⟩ : ∃ sql, (ledPeople.aliased "p").compile people = .ok sql :=
    exists_ok (by decide +kernel)
  obtain ⟨scope, statement, leaf, hscope, hresolve, _, hid, hcalls, _⟩ := hcompiled people sql hsql
  refine ⟨hrelation, hname "leader" hrelation, scope, statement, leaf, hscope, hresolve, ?_, hcalls⟩
  -- The leaves of this one statement are computed.
  have hcomputed : ((ledPeople.aliased "p").statement people).toOption.map Statement.leaves =
      some [⟨⟨0⟩, some "p"⟩, ⟨⟨2⟩, some "leader0"⟩, ⟨⟨3⟩, some "leader1"⟩] := by
    decide +kernel
  have hstatement : (ledPeople.aliased "p").statement people = .ok statement := by
    rw [Query.statement, hscope]
    exact hresolve
  rw [hstatement] at hcomputed
  have hleaves := Option.some.inj hcomputed
  refine (hcalls.only ⟨⟨2⟩, some "leader0"⟩ ?_ hid.symm).symm
  rw [hleaves]
  decide

end RelationalQuery
