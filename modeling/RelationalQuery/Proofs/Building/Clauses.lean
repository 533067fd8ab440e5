/-
  RelationalQuery.Proofs.Building.Clauses — operations on queries are admitted.

  An operation on a query changes a clause and writes sound queries into it, or changes the FROM
  clause as the operations on sources do. What a value is made of is admitted as well.

  Main statements:
    * `Session.Invariant.admits_clause`: another clause, and one case of it for each clause.
    * `Session.Invariant.admits_joined`, `Session.Invariant.admits_attach`: attached relations.
    * `Session.Invariant.admits_count`: the count of a query.
-/

import RelationalQuery.Proofs.Building.Operations

namespace RelationalQuery

/-! ## Queries in conditions -/

/-- Taking a conjunction apart loses no query in it. -/
theorem Expr.subqueries_conjuncts (e : Expr) :
    e.conjuncts.flatMap Expr.subqueries = e.subqueries := by
  unfold Expr.conjuncts
  split
  · rw [Expr.subqueries, Expr.subqueriesAll_eq]
  · rw [List.flatMap_singleton]

/-- The queries in a conjunction are those in its terms. -/
theorem Expr.subqueries_all (es : List Expr) :
    (Expr.all es).subqueries = es.flatMap Expr.subqueries := by
  have hflat : (es.flatMap Expr.conjuncts).flatMap Expr.subqueries =
      es.flatMap Expr.subqueries := by
    rw [List.flatMap_assoc]
    exact congrArg (fun f => es.flatMap f) (funext Expr.subqueries_conjuncts)
  unfold Expr.all
  split
  · rename_i e heq
    rw [← hflat, heq, List.flatMap_singleton]
  · rw [Expr.subqueries, Expr.subqueriesAll_eq, hflat]

/-- A conjunction has the queries of both conditions. -/
theorem Query.subqueries_conjoin {earlier : Option Expr} {condition : Expr} {p : Query}
    (h : p ∈ (Query.conjoin earlier condition).toList.flatMap Expr.subqueries) :
    p ∈ earlier.toList.flatMap Expr.subqueries ∨ p ∈ condition.subqueries := by
  cases earlier with
  | none =>
      rw [Query.conjoin, Option.toList_some, List.flatMap_singleton] at h
      exact Or.inr h
  | some e =>
      rw [Query.conjoin, Option.toList_some, List.flatMap_singleton, Expr.subqueries_all,
        List.flatMap_cons, List.flatMap_singleton, List.mem_append] at h
      rw [Option.toList_some, List.flatMap_singleton]
      exact h

/-- Where a query in an expression of a query stands. -/
theorem Query.mem_subqueries {q p : Query} : p ∈ q.subqueries ↔
    p ∈ q.selection.flatMap ResultColumn.subqueries ∨
      p ∈ q.filter.toList.flatMap Expr.subqueries ∨ p ∈ q.groupBy.flatMap Expr.subqueries ∨
      p ∈ q.having.toList.flatMap Expr.subqueries ∨
      p ∈ q.orderings.flatMap fun term => term.expr.subqueries := by
  unfold Query.subqueries
  simp only [List.mem_append, or_assoc]

/-! ## Counting -/

namespace Query

/-- The queries in the only entry of a select list. -/
theorem mem_subqueries_of_single {q p : Query} {column : ResultColumn}
    (h : q.selection = [column]) (hp : p ∈ column.subqueries) : p ∈ q.subqueries := by
  refine mem_subqueries.mpr (Or.inl ?_)
  rw [h, List.flatMap_singleton]
  exact hp

/-- A count over the same clauses has no other source and no new queries. -/
theorem of_countInPlace? {q counting : Query} {table : SourceId}
    (h : q.countInPlace? table = some counting) :
    counting.source = q.source ∧ ∀ p ∈ counting.subqueries, p ∈ q.subqueries := by
  -- The clauses behind the select list are those of the query.
  have hplain : ∀ p ∈ (q.countInPlace table).subqueries, p ∈ q.subqueries := by
    intro p hp
    rw [mem_subqueries] at hp ⊢
    rcases hp with hp | hrest
    · cases hp
    · exact Or.inr hrest
  -- The counted expression was in the select list before.
  have hdistinct : ∀ e : Expr, (∀ p ∈ e.subqueries, p ∈ q.subqueries) →
      ∀ p ∈ (q.countDistinctInPlace e).subqueries, p ∈ q.subqueries := by
    intro e he p hp
    rw [mem_subqueries] at hp
    rcases hp with hp | hrest
    · rw [countDistinctInPlace, List.flatMap_singleton, ResultColumn.subqueries,
        Expr.subqueries] at hp
      exact he p hp
    · exact mem_subqueries.mpr (Or.inr hrest)
  unfold countInPlace? at h
  split at h
  · cases h
  · split at h
    · cases h
      exact ⟨rfl, hplain⟩
    · cases h
  · rename_i e hselection
    have he : ∀ p ∈ e.subqueries, p ∈ q.subqueries := fun p hp =>
      mem_subqueries_of_single hselection hp
    split at h
    · cases h
      exact ⟨rfl, hdistinct e he⟩
    · cases h
      exact ⟨rfl, hplain⟩
  · rename_i e name hselection
    have he : ∀ p ∈ e.subqueries, p ∈ q.subqueries := fun p hp =>
      mem_subqueries_of_single hselection hp
    split at h
    · cases h
      exact ⟨rfl, hdistinct e he⟩
    · cases h
      exact ⟨rfl, hplain⟩
  · split at h
    · cases h
    · cases h
      exact ⟨rfl, hplain⟩

/-- The counting query over the same clauses, if the query has a shape that is counted in place. -/
def countedInPlace? (q : Query) : Option Query :=
  if q.unordered.keepsRows then q.unordered.table?.bind q.unordered.countInPlace? else none

/-- The counting query, in place or from outside. -/
theorem countQuery_eq (q : Query) : q.countQuery =
    match q.countedInPlace? with
    | some counting => pure counting
    | none => q.unordered.countFromOutside := rfl

/-- Without its orderings a query has fewer queries in it. -/
theorem subqueries_unordered {q p : Query} (h : p ∈ q.unordered.subqueries) :
    p ∈ q.subqueries := by
  rw [mem_subqueries] at h ⊢
  rcases h with h | h | h | h | h
  · exact Or.inl h
  · exact Or.inr (Or.inl h)
  · exact Or.inr (Or.inr (Or.inl h))
  · exact Or.inr (Or.inr (Or.inr (Or.inl h)))
  · cases h

/-- Counting in place reads the same source, and has no new queries. -/
theorem parts_of_countedInPlace? {q counting : Query} (h : q.countedInPlace? = some counting) :
    counting.source = q.source ∧ ∀ p ∈ counting.subqueries, p ∈ q.subqueries := by
  unfold countedInPlace? at h
  split at h
  · obtain ⟨table, _, htable⟩ := Option.bind_eq_some_iff.mp h
    obtain ⟨hsource, hsub⟩ := of_countInPlace? htable
    exact ⟨hsource, fun p hp => subqueries_unordered (hsub p hp)⟩
  · cases h

end Query

namespace Session

variable {σ : Session}

/-! ## Queries -/

/-- A query with another clause is admitted. -/
theorem Invariant.admits_clause (h : σ.Invariant) {q q' : Query} (hq : .query q ∈ σ.held)
    (hsource : q'.source = q.source) (hsub : ∀ p ∈ q'.subqueries, p ∈ q.subqueries ∨ p.Sound) :
    σ.Admits σ.next (.query q') := by
  obtain ⟨hformed, hsound⟩ := h.formed _ hq
  refine .of_known h ⟨hsource ▸ hformed, ?_⟩ ?_ ?_
  · -- A query inside is in a clause, or below the source, which is the old one.
    intro p hp
    rcases hp with hp | hp
    · exact (hsub p hp).elim (fun hold => hsound p (Or.inl hold)) (fun hp => hp)
    · rw [hsource] at hp
      exact hsound p (Or.inr hp)
  · intro o ho
    rw [Held.occurrences, Query.occurrences_eq, hsource, ← Query.occurrences_eq] at ho
    exact ⟨_, hq, ho⟩
  · intro id hid
    rw [Held.pinned, Query.pinned_eq, hsource, ← Query.pinned_eq] at hid
    exact ⟨_, hq, hid⟩

/-- A query over a new source selects all of it. -/
theorem Admits.ofSource {next : Nat} {s : Source} (h : σ.Admits next (.source s)) :
    σ.Admits next (.query (.ofSource s)) := by
  refine h.query rfl ?_
  intro p hp
  rw [Query.mem_subqueries] at hp
  rcases hp with hp | hp | hp | hp | hp <;> cases hp

/-- The source of a held query is admitted. -/
theorem Invariant.admits_sourceOf (h : σ.Invariant) {q : Query} (hq : .query q ∈ σ.held)
    {s : Source} (hs : q.source = some s) : σ.Admits σ.next (.source s) := by
  obtain ⟨hformed, hsound⟩ := h.formed _ hq
  have hcovers := covers_query hq hs
  exact .of_known h ⟨hformed s hs, fun p hp => hsound p (Or.inr ⟨s, hs, hp⟩)⟩ hcovers.known
    hcovers.pins

/-- A held query under another name is admitted. -/
theorem Invariant.admits_aliased (h : σ.Invariant) {q : Query} (hq : .query q ∈ σ.held)
    (name : String) : σ.Admits σ.next (.query (q.aliased name)) := by
  cases hs : q.source with
  | none =>
      refine h.admits_clause hq ?_ fun p hp => Or.inl hp
      rw [Query.aliased, hs]
      rfl
  | some s =>
      have hnamed := (h.admits_sourceOf hq hs).setAlias h (.given name)
      refine hnamed.query (q := q.aliased name) ?_ ?_
      · rw [Query.aliased, hs]
        rfl
      · intro p hp
        exact (h.formed _ hq).2 p (Or.inl hp)

/-- Ids drawn just now differ from those of known leaves. -/
theorem Invariant.nodup_append_renumbered (h : σ.Invariant) {s : Source} (hformed : s.Formed)
    (hcovers : σ.Covers s) (ts : List Source) :
    ((s.leaves ++ Source.renumbered σ.next ts).map Source.id).Nodup := by
  rw [List.map_append, List.nodup_append]
  refine ⟨hformed.distinct, nodup_ids_renumbered _ _, ?_⟩
  intro a ha b hb heq
  subst heq
  obtain ⟨t, ht, rfl⟩ := List.mem_map.mp ha
  rw [Source.ids_renumbered] at hb
  obtain ⟨k, hk, hkid⟩ := List.mem_map.mp hb
  -- A drawn id is not below the next unused one, as the ids of all known leaves are.
  have hlow := (List.mem_range'_1.mp hk).1
  have hbelow := h.known_below ((hcovers.leaf ht).known _
    (Source.occurrence_mem (hformed.leaf t ht)))
  rw [Source.id_occurrence, ← hkid] at hbelow
  exact absurd (Nat.lt_of_lt_of_le hbelow hlow) (Nat.lt_irrefl k)

/-- A known source with forks of relations joined to it is admitted. -/
theorem Invariant.admits_joined (h : σ.Invariant) {s attached : Source} (hs : s.Formed)
    (hcovers : σ.Covers s) {ts : List Source}
    (hts : ∀ t ∈ ts, (t.IsLeaf ∧ t.name?.isSome) ∧ σ.Covers t) {next : Nat}
    (hnext : σ.next + ts.length ≤ next)
    (hleaves : attached.leaves = s.leaves ++ Source.renumbered σ.next ts)
    (hsound : ∀ p, attached.Nests p → p.Sound) : σ.Admits next (.source attached) := by
  have hbase : attached.base = s.base := (List.cons.inj hleaves).1
  have hafter : attached.targets = s.targets ++ Source.renumbered σ.next ts :=
    (List.cons.inj hleaves).2
  refine .of_named h (by omega) ⟨⟨?_, ?_, ?_⟩, hsound⟩ ?_ ?_
  · rw [hleaves]
    exact List.forall_mem_append.mpr
      ⟨hs.leaf, fun u hu => (formed_renumbered σ.next hts u hu).1⟩
  · rw [hafter]
    exact List.forall_mem_append.mpr
      ⟨hs.named, fun u hu => (formed_renumbered σ.next hts u hu).2⟩
  · rw [hleaves]
    exact h.nodup_append_renumbered hs hcovers ts
  · intro o ho
    rw [Held.occurrences, Source.occurrences_eq, hleaves, List.flatMap_append,
      ← Source.occurrences_eq, List.mem_append] at ho
    rcases ho with hold | hnew
    · -- An occurrence was known before, or it is one of the forks.
      exact Or.inr (hcovers.known o hold)
    · refine (renumbered_origin σ.next hts o hnew).imp (fun hnew => ?_) fun hold => hold
      exact ⟨by omega, hnew.2⟩
  · intro id hid
    rw [Held.pinned, Source.pinned_eq, hbase, hafter, List.flatMap_append,
      ← List.append_assoc, ← Source.pinned_eq, List.mem_append] at hid
    rcases hid with hold | hnew
    · exact Or.inr (hcovers.pins id hold)
    · refine (renumbered_pins σ.next hts id hnew).imp (fun hnew => ?_) fun hold => hold
      omega

/-- Relations that are held can be joined to a query that is held, and the result is admitted. -/
theorem Invariant.admits_attach (h : σ.Invariant) {q : Query} (hq : .query q ∈ σ.held)
    (kind : JoinKind) (included : Bool) {rs : List Relation}
    (hrs : ∀ r ∈ rs, .relation r ∈ σ.held) :
    ∃ attached next, (q.attach kind included rs).run σ.next = (attached, next) ∧
      σ.Admits next (.query attached) := by
  cases hs : q.source with
  | none =>
      -- Without a source there is nothing to attach to, and the query stays as it is.
      refine ⟨q, σ.next, ?_, h.again hq⟩
      rw [Query.attach, hs]
      rfl
  | some s =>
      obtain ⟨hformed, hsound⟩ := h.formed _ hq
      obtain ⟨_, attached, next, hrun, _, hnext, hleaves, hinside⟩ :=
        Query.attach_run hs kind included rs σ.next
          fun other hother t ht => (h.forkable (hrs other hother) t ht).1.1
      -- What the new tree nests was nested before, or is nested in an attached relation.
      have hinner : ∀ p, attached.Nests p → p.Sound := by
        intro p hp
        rcases hinside p hp with hold | ⟨other, hother, hp⟩
        · exact hsound p (Or.inr ⟨s, hs, hold⟩)
        · exact (h.formed _ (hrs other hother)).2 p hp
      have hsource := h.admits_joined (hformed s hs) (covers_query hq hs) (h.attachable hrs)
        hnext hleaves hinner
      exact ⟨{ q with source := some attached }, next, hrun,
        hsource.query rfl fun p hp => hsound p (Or.inl hp)⟩

/-- The counting query of a held query is admitted. -/
theorem Invariant.admits_count (h : σ.Invariant) {q : Query} (hq : .query q ∈ σ.held) :
    ∃ counting next, q.countQuery.run σ.next = (counting, next) ∧
      σ.Admits next (.query counting) := by
  have hplain : σ.Admits σ.next (.query q.unordered) :=
    h.admits_clause hq rfl fun p hp => Or.inl (Query.subqueries_unordered hp)
  have husable : σ.Usable q.unordered := by
    refine ⟨.intro ?_ hplain.formed.2, ?_, ?_⟩
    · exact fun s hs => (h.sound hq).proper hs
    · intro o ho
      rw [Query.occurrences_eq] at ho
      exact (h.usable hq).known o (by rw [Query.occurrences_eq]; exact ho)
    · intro id hid
      rw [Query.pinned_eq] at hid
      exact (h.usable hq).pins id (by rw [Query.pinned_eq]; exact hid)
  rw [Query.countQuery_eq]
  cases hplace : q.countedInPlace? with
  | none =>
      -- The count is over the whole query as an unnamed subquery.
      refine ⟨_, σ.next + 1, rfl, Admits.query (husable.admits_subquery none) rfl ?_⟩
      intro p hp
      rw [Query.mem_subqueries] at hp
      rcases hp with hp | hp | hp | hp | hp <;> cases hp
  | some counting =>
      obtain ⟨hsource, hsub⟩ := Query.parts_of_countedInPlace? hplace
      exact ⟨counting, σ.next, rfl, h.admits_clause hq hsource fun p hp => Or.inl (hsub p hp)⟩

/-! ## Parts -/

/-- A relation that is joined somewhere in a held value is admitted. -/
theorem Invariant.admits_below (h : σ.Invariant) {joins : List Join} {j : Join} (hj : j ∈ joins)
    (hformed : ∀ t ∈ Join.targets joins, t.IsLeaf ∧ t.name?.isSome)
    (hknown : ∀ t ∈ Join.targets joins, ∀ o ∈ t.occurrences, σ.Known o)
    (hpins : ∀ t ∈ Join.targets joins, ∀ id ∈ t.id :: t.pinned, σ.Pins id)
    (hsound : ∀ p, Join.Nests p joins → p.Sound) : σ.Admits σ.next (.relation j.relation) := by
  have hsubset := Join.targets_subset hj
  refine .of_known h ⟨fun t ht => hformed t (hsubset ht),
    fun p hp => hsound p (Join.nests_of_mem hj hp)⟩ ?_ ?_
  · intro o ho
    obtain ⟨t, ht, hmem⟩ := List.mem_flatMap.mp ho
    exact hknown t (hsubset ht) o hmem
  · intro id hid
    obtain ⟨t, ht, hmem⟩ := List.mem_flatMap.mp hid
    exact hpins t (hsubset ht) id hmem

/-- The relation of a join in a held source is admitted. -/
theorem Invariant.admits_relationOf (h : σ.Invariant) {s : Source} (hs : .source s ∈ σ.held)
    {j : Join} (hj : j ∈ s.joins) : σ.Admits σ.next (.relation j.relation) := by
  obtain ⟨hformed, hsound⟩ := h.formed _ hs
  have hleaf : ∀ t ∈ Join.targets s.joins, t ∈ s.leaves := fun t ht => List.mem_cons_of_mem _ ht
  refine h.admits_below hj (fun t ht => ⟨hformed.leaf t (hleaf t ht), hformed.named t ht⟩)
    (fun t ht => ((covers_source hs).leaf (hleaf t ht)).known) ?_
    fun p hp => hsound p (Source.nests_joins hp)
  intro t ht id hid
  rcases List.mem_cons.mp hid with rfl | hinner
  · exact (covers_source hs).pins _ (Source.target_mem_pinned ht)
  · exact ((covers_source hs).leaf (hleaf t ht)).pins id hinner

/-- The relation of a join below a held relation is admitted. -/
theorem Invariant.admits_relationBelow (h : σ.Invariant) {r : Relation}
    (hr : .relation r ∈ σ.held) {j : Join} (hj : j ∈ r.joins) :
    σ.Admits σ.next (.relation j.relation) := by
  obtain ⟨hformed, hsound⟩ := h.formed _ hr
  have hbelow : ∀ t ∈ Join.targets r.joins, t ∈ r.targets := by
    intro t ht
    rw [Relation.targets_eq]
    exact List.mem_cons_of_mem _ ht
  refine h.admits_below hj (fun t ht => hformed t (hbelow t ht))
    (fun t ht => (covers_relation hr (hbelow t ht)).known) ?_
    fun p hp => hsound p (Or.inr (Or.inr (Or.inr hp)))
  intro t ht id hid
  exact ⟨_, hr, List.mem_flatMap.mpr ⟨t, hbelow t ht, hid⟩⟩

/-- The base of a held source is admitted. -/
theorem Invariant.admits_baseOf (h : σ.Invariant) {s : Source} (hs : .source s ∈ σ.held) :
    σ.Admits σ.next (.source s.base) := by
  obtain ⟨hformed, hsound⟩ := h.formed _ hs
  have hbase : s.base ∈ s.leaves := List.mem_cons_self ..
  have hcovers := (covers_source hs).leaf hbase
  exact .of_known h ⟨formed_of_isLeaf (hformed.leaf _ hbase),
    fun p hp => hsound p (Source.nests_base hp)⟩ hcovers.known hcovers.pins

/-- The query inside a held source is admitted. -/
theorem Invariant.admits_queryOf (h : σ.Invariant) {id : SourceId} {q : Query}
    {label : Option Alias} (hs : .source (.subquery id q label) ∈ σ.held) :
    σ.Admits σ.next (.query q) := by
  obtain ⟨_, hsound⟩ := h.formed _ hs
  have hq : q.Sound := hsound q (by rw [Source.Nests])
  refine .of_known h ⟨fun s hs => (hq.proper hs).toFormed, fun p hp => hq.nested hp⟩ ?_ ?_
  · intro o ho
    refine ⟨_, hs, ?_⟩
    rw [Held.occurrences, Source.occurrences]
    exact List.mem_cons_of_mem _ ho
  · intro id hid
    exact ⟨_, hs, hid⟩

/-- The target of a held relation is admitted. -/
theorem Invariant.admits_targetOf (h : σ.Invariant) {r : Relation} (hr : .relation r ∈ σ.held) :
    σ.Admits σ.next (.source r.target) := by
  obtain ⟨hformed, hsound⟩ := h.formed _ hr
  have htarget : r.target ∈ r.targets := by
    rw [Relation.targets_eq]
    exact List.mem_cons_self ..
  have hcovers := covers_relation hr htarget
  exact .of_known h ⟨formed_of_isLeaf (hformed _ htarget).1, fun p hp => hsound p (Or.inl hp)⟩
    hcovers.known hcovers.pins

/-! ## Clauses

What a caller writes into a clause nests sound queries; all else is as it was. -/

/-- A relation is admitted with one more condition, if the queries in the condition are sound. -/
theorem Invariant.admits_restrictRelation (h : σ.Invariant) {r : Relation}
    (hr : .relation r ∈ σ.held) {condition : SourceId → SourceId → Expr}
    (hsound : ∀ left right, ∀ p ∈ (condition left right).conjuncts.flatMap Expr.subqueries,
      p.Sound) : σ.Admits σ.next (.relation (r.restrict condition)) := by
  refine h.admits_refined hr ?_ ?_
  · rw [Relation.targets_eq, Relation.targets_eq]
    rfl
  · -- The condition is the only part that gets anything new inside.
    intro p hp
    rcases hp with hp | ⟨left, right, hp⟩ | hp
    · exact Or.inl (Or.inl hp)
    · rw [Relation.restrict, List.flatMap_append, List.mem_append] at hp
      exact hp.imp (fun hold => Or.inr (Or.inl ⟨left, right, hold⟩)) (hsound left right p)
    · exact Or.inl (Or.inr (Or.inr hp))

/-- A relation is admitted with other columns, if the queries in these are sound. -/
theorem Invariant.admits_selectRelation (h : σ.Invariant) {r : Relation}
    (hr : .relation r ∈ σ.held) {selection : SourceId → List ResultColumn}
    (hsound : ∀ right, ∀ p ∈ (selection right).flatMap ResultColumn.subqueries, p.Sound) :
    σ.Admits σ.next (.relation (r.select selection)) := by
  refine h.admits_refined hr ?_ ?_
  · rw [Relation.targets_eq, Relation.targets_eq]
    rfl
  · -- The selection is replaced, so nothing of the old one is left to account for.
    intro p hp
    rcases hp with hp | hp | ⟨right, hp⟩ | hp
    · exact Or.inl (Or.inl hp)
    · exact Or.inl (Or.inr (Or.inl hp))
    · exact Or.inr (hsound right p hp)
    · exact Or.inl (Or.inr (Or.inr (Or.inr hp)))

/-- The query of nothing is admitted. -/
theorem Invariant.admits_empty (h : σ.Invariant) : σ.Admits σ.next (.query .empty) := by
  refine .of_known h ⟨fun s hs => (by cases hs), ?_⟩ ?_ ?_
  · intro p hp
    rcases hp with hp | ⟨s, hs, _⟩
    · cases hp
    · cases hs
  · intro o ho
    cases ho
  · intro id hid
    cases hid

section Clauses

variable {q : Query} (h : σ.Invariant) (hq : .query q ∈ σ.held)

include h hq

/-- A query is admitted with other columns, if the queries in these are sound. -/
theorem Invariant.admits_select {selection : List ResultColumn}
    (hsound : ∀ p ∈ selection.flatMap ResultColumn.subqueries, p.Sound) :
    σ.Admits σ.next (.query (q.select selection)) := by
  refine h.admits_clause hq rfl fun p hp => ?_
  rw [Query.mem_subqueries] at hp ⊢
  rcases hp with hp | hrest
  · exact Or.inr (hsound p hp)
  · exact Or.inl (Or.inr hrest)

/-- A query is admitted with one more condition, if the queries in it are sound. -/
theorem Invariant.admits_restrict {condition : Expr}
    (hsound : ∀ p ∈ condition.subqueries, p.Sound) :
    σ.Admits σ.next (.query (q.restrict condition)) := by
  refine h.admits_clause hq rfl fun p hp => ?_
  rw [Query.mem_subqueries] at hp ⊢
  rcases hp with hp | hp | hrest
  · exact Or.inl (Or.inl hp)
  · exact (Query.subqueries_conjoin hp).imp (fun hold => Or.inr (Or.inl hold)) (hsound p)
  · exact Or.inl (Or.inr (Or.inr hrest))

/-- A query is admitted with other keys of groups, if the queries in these are sound. -/
theorem Invariant.admits_group {keys : List Expr}
    (hsound : ∀ p ∈ keys.flatMap Expr.subqueries, p.Sound) :
    σ.Admits σ.next (.query (q.group keys)) := by
  refine h.admits_clause hq rfl fun p hp => ?_
  rw [Query.mem_subqueries] at hp ⊢
  rcases hp with hp | hp | hp | hrest
  · exact Or.inl (Or.inl hp)
  · exact Or.inl (Or.inr (Or.inl hp))
  · exact Or.inr (hsound p hp)
  · exact Or.inl (Or.inr (Or.inr (Or.inr hrest)))

/-- A query is admitted with one more condition on groups, if the queries in it are sound. -/
theorem Invariant.admits_restrictGroups {condition : Expr}
    (hsound : ∀ p ∈ condition.subqueries, p.Sound) :
    σ.Admits σ.next (.query (q.restrictGroups condition)) := by
  refine h.admits_clause hq rfl fun p hp => ?_
  rw [Query.mem_subqueries] at hp ⊢
  rcases hp with hp | hp | hp | hp | hp
  · exact Or.inl (Or.inl hp)
  · exact Or.inl (Or.inr (Or.inl hp))
  · exact Or.inl (Or.inr (Or.inr (Or.inl hp)))
  · exact (Query.subqueries_conjoin hp).imp
      (fun hold => Or.inr (Or.inr (Or.inr (Or.inl hold)))) (hsound p)
  · exact Or.inl (Or.inr (Or.inr (Or.inr (Or.inr hp))))

/-- A query is admitted with other orderings, if the queries in these are sound. -/
theorem Invariant.admits_order {orderings : List OrderingTerm}
    (hsound : ∀ p ∈ orderings.flatMap fun term => term.expr.subqueries, p.Sound) :
    σ.Admits σ.next (.query (q.order orderings)) := by
  refine h.admits_clause hq rfl fun p hp => ?_
  rw [Query.mem_subqueries] at hp ⊢
  rcases hp with hp | hp | hp | hp | hp
  · exact Or.inl (Or.inl hp)
  · exact Or.inl (Or.inr (Or.inl hp))
  · exact Or.inl (Or.inr (Or.inr (Or.inl hp)))
  · exact Or.inl (Or.inr (Or.inr (Or.inr (Or.inl hp))))
  · exact Or.inr (hsound p hp)

end Clauses

end Session

end RelationalQuery
