/-
  RelationalQuery.Proofs.Building.Fork — what a fork draws.

  A fork of joins whose targets are leaves draws one id for each target, depth first, and changes
  nothing else: the targets of the fork are the old ones, numbered on from the supply. So all
  the new ids are different from each other and from everything drawn before.

  Main statements:
    * `Join.forkAll_run`, `Relation.fork_run`: the targets of a fork.
    * `Source.ids_renumbered`: the ids that a fork draws.
-/

import RelationalQuery.Proofs.Building.Parts

namespace RelationalQuery

/-- What is drawn first decides what is drawn from then on. -/
theorem Supply.run_bind {α β : Type} {x : Supply α} {next : α → Supply β} {n m : Nat} {a : α}
    (h : x.run n = (a, m)) : (x >>= next).run n = (next a).run m := by
  rw [StateT.run_bind, h]
  rfl

theorem Supply.run_map {α β : Type} {f : α → β} {x : Supply α} {n m : Nat} {a : α}
    (h : x.run n = (a, m)) : (f <$> x).run n = (f a, m) := by
  rw [StateT.run_map, h]
  rfl

/-! ## Leaves with other ids -/

namespace Source

/-- The same source under another id. -/
def withId (id : SourceId) : Source → Source
  | .table _ name label => .table id name label
  | .subquery _ query label => .subquery id query label
  | .joinTree _ left joins => .joinTree id left joins

/-- Leaves with ids from `n` on. -/
def renumbered (n : Nat) : List Source → List Source
  | [] => []
  | t :: rest => t.withId ⟨n⟩ :: renumbered (n + 1) rest

/-- Two lists of sources are numbered one behind the other. -/
theorem renumbered_append : (a b : List Source) → (n : Nat) →
    renumbered n (a ++ b) = renumbered n a ++ renumbered (n + a.length) b
  | [], _, _ => rfl
  | t :: rest, b, n => by
      rw [List.cons_append, renumbered, renumbered, renumbered_append rest b, List.length_cons,
        Nat.add_right_comm n 1, Nat.add_assoc n, List.cons_append]

theorem id_withId (id : SourceId) (s : Source) : (s.withId id).id = id := by
  cases s <;> rfl

/-- The ids of numbered sources are consecutive. -/
theorem ids_renumbered : (ts : List Source) → (n : Nat) →
    (renumbered n ts).map Source.id = (List.range' n ts.length).map SourceId.mk
  | [], _ => rfl
  | t :: rest, n => by
      rw [renumbered, List.map_cons, id_withId, ids_renumbered rest, List.length_cons,
        List.range'_succ, List.map_cons]

/-- A renumbered leaf is one of the leaves, under an id drawn from `n` on. -/
theorem mem_renumbered : (ts : List Source) → (n : Nat) → ∀ u ∈ renumbered n ts,
    ∃ t ∈ ts, ∃ k, n ≤ k ∧ k < n + ts.length ∧ u = t.withId ⟨k⟩
  | [], _, u, h => by cases h
  | t :: rest, n, u, h => by
      rw [renumbered, List.mem_cons] at h
      rw [List.length_cons]
      rcases h with rfl | hrest
      · exact ⟨t, List.mem_cons_self .., n, Nat.le_refl n, by omega, rfl⟩
      · obtain ⟨t', ht', k, hlow, hhigh, rfl⟩ := mem_renumbered rest (n + 1) u hrest
        exact ⟨t', List.mem_cons_of_mem _ ht', k, by omega, by omega, rfl⟩

theorem isLeaf_withId {id : SourceId} {s : Source} (h : s.IsLeaf) : (s.withId id).IsLeaf := by
  cases s with
  | table => trivial
  | subquery => trivial
  | joinTree => exact h

theorem name?_withId (id : SourceId) (s : Source) : (s.withId id).name? = s.name? := by
  cases s <;> rfl

/-- The queries inside a source do not depend on its id. -/
theorem nests_withId {id : SourceId} {s : Source} {p : Query} :
    (s.withId id).Nests p ↔ s.Nests p := by
  cases s with
  | table => exact Iff.rfl
  | subquery => exact Iff.rfl
  | joinTree => exact Iff.rfl

/-- Of the leaves of a leaf, only itself has another id. -/
theorem mem_occurrences_withId {id : SourceId} {s : Source} (hleaf : s.IsLeaf) {o : Occurrence}
    (h : o ∈ (s.withId id).occurrences) :
    o = (s.withId id).occurrence ∨ o ∈ s.occurrences := by
  match s, hleaf with
  | .table old name label, _ =>
      rw [withId, occurrences, List.mem_singleton] at h
      exact Or.inl h
  | .subquery old query label, _ =>
      rw [withId, occurrences, List.mem_cons] at h
      rcases h with rfl | hinner
      · exact Or.inl rfl
      · rw [occurrences]
        exact Or.inr (List.mem_cons_of_mem _ hinner)

/-- Of the pinned ids of a leaf, only its own can be another, and then the leaf has a name. -/
theorem mem_pinned_withId {id : SourceId} {s : Source} (hleaf : s.IsLeaf) {pinned : SourceId}
    (h : pinned ∈ (s.withId id).pinned) :
    (pinned = id ∧ s.name?.isSome) ∨ pinned ∈ s.pinned := by
  match s, hleaf with
  | .table old name label, _ =>
      rw [withId, Source.pinned, List.mem_singleton] at h
      exact Or.inl ⟨h, rfl⟩
  | .subquery old query label, _ => exact Or.inr h

/-- The ids of an occurrence and of its source agree. -/
theorem id_occurrence (s : Source) : s.occurrence.id = s.id := rfl

/-- A fork of a leaf is the leaf under the next id. -/
theorem fork_leaf {s : Source} (h : s.IsLeaf) (n : Nat) :
    s.fork.run n = (s.withId ⟨n⟩, n + 1) := by
  match s, h with
  | .table .., _ =>
      rw [fork]
      rfl
  | .subquery .., _ =>
      rw [fork]
      rfl

end Source

/-! ## Forks of joins -/

/-- What a fork of joins is: the same joins with other targets. -/
structure Join.ForkOf (n : Nat) (joins forked : List Join) : Prop where
  targets : Join.targets forked = Source.renumbered n (Join.targets joins)
  nests : ∀ p, Join.Nests p forked → Join.Nests p joins

/-- What a fork of a relation is: the same relation with other targets. -/
structure Relation.ForkOf (n : Nat) (r forked : Relation) : Prop where
  targets : forked.targets = Source.renumbered n r.targets
  nests : ∀ p, forked.Nests p → r.Nests p

mutual

/-- A fork draws one id for each target. -/
theorem Relation.fork_run : (r : Relation) → (n : Nat) → (∀ t ∈ r.targets, t.IsLeaf) →
    ∃ forked, r.fork.run n = (forked, n + r.targets.length) ∧ r.ForkOf n forked
  | ⟨name, target, mapping, condition, selection, joins⟩, n, h => by
      rw [Relation.targets, List.forall_mem_cons] at h
      obtain ⟨others, hrun, hfork⟩ := Join.forkAll_run joins (n + 1) h.2
      -- The target is numbered first, and the relations below it follow.
      refine ⟨⟨name, target.withId ⟨n⟩, mapping, condition, selection, others⟩, ?_, ?_, ?_⟩
      · rw [Relation.fork, Supply.run_bind (Source.fork_leaf h.1 n), Supply.run_bind hrun,
          Relation.targets, List.length_cons, ← Nat.add_assoc, Nat.add_right_comm]
        rfl
      · rw [Relation.targets, Relation.targets, Source.renumbered, hfork.targets]
      · intro p hp
        unfold Relation.Nests at hp ⊢
        rcases hp with htarget | hcondition | hselection | hjoins
        · exact Or.inl (Source.nests_withId.mp htarget)
        · exact Or.inr (Or.inl hcondition)
        · exact Or.inr (Or.inr (Or.inl hselection))
        · exact Or.inr (Or.inr (Or.inr (hfork.nests p hjoins)))

/-- Forks of joins draw one id for each target, in order. -/
theorem Join.forkAll_run : (joins : List Join) → (n : Nat) →
    (∀ t ∈ Join.targets joins, t.IsLeaf) →
    ∃ forked, (Join.forkAll joins).run n = (forked, n + (Join.targets joins).length) ∧
      Join.ForkOf n joins forked
  | [], n, _ => by
      refine ⟨[], ?_, ?_, fun p hp => hp⟩
      · rw [Join.forkAll]
        rfl
      · rfl
  | ⟨included, kind, relation⟩ :: rest, n, h => by
      rw [Join.targets, List.forall_mem_append] at h
      -- The joins after this one draw where its whole relation has stopped.
      obtain ⟨own, hown, hownFork⟩ := Relation.fork_run relation n h.1
      obtain ⟨others, hothers, hothersFork⟩ :=
        Join.forkAll_run rest (n + relation.targets.length) h.2
      refine ⟨⟨included, kind, own⟩ :: others, ?_, ?_, ?_⟩
      · rw [Join.forkAll, Supply.run_bind hown, Supply.run_bind hothers, Join.targets,
          List.length_append, ← Nat.add_assoc]
        rfl
      · rw [Join.targets, Join.targets, Source.renumbered_append, hownFork.targets,
          hothersFork.targets]
      · intro p hp
        rw [Join.nests_cons] at hp ⊢
        exact hp.imp (hownFork.nests p) (hothersFork.nests p)

end

/-- Attaching relations forks them as joins. -/
theorem Join.ofRelations_eq (kind : JoinKind) (included : Bool) : (rs : List Relation) →
    Join.ofRelations kind included rs = Join.forkAll (rs.map fun r => ⟨included, kind, r⟩)
  | [] => by
      rw [List.map_nil, Join.forkAll]
      rfl
  | r :: rest => by
      rw [List.map_cons, Join.forkAll, Join.ofRelations, Join.ofRelations_eq kind included rest]

/-- The targets of joins made of relations are those of the relations. -/
theorem Join.targets_ofRelations (kind : JoinKind) (included : Bool) : (rs : List Relation) →
    Join.targets (rs.map fun r => ⟨included, kind, r⟩) = rs.flatMap Relation.targets
  | [] => by
      rw [List.map_nil, Join.targets]
      rfl
  | r :: rest => by
      rw [List.map_cons, Join.targets, Join.targets_ofRelations kind included rest,
        List.flatMap_cons]

/-- What stands inside joins made of relations stands inside one of the relations. -/
theorem Join.nests_ofRelations {kind : JoinKind} {included : Bool} {p : Query} :
    (rs : List Relation) → Join.Nests p (rs.map fun r => ⟨included, kind, r⟩) →
      ∃ r ∈ rs, r.Nests p
  | [], h => by
      rw [List.map_nil, Join.Nests] at h
      exact h.elim
  | r :: rest, h => by
      rw [List.map_cons, Join.nests_cons] at h
      rcases h with hown | hrest
      · exact ⟨r, List.mem_cons_self .., hown⟩
      · obtain ⟨other, hother, hnests⟩ := Join.nests_ofRelations rest hrest
        exact ⟨other, List.mem_cons_of_mem _ hother, hnests⟩

/-- Attaching relations draws one id for each of their targets. -/
theorem Join.ofRelations_run (kind : JoinKind) (included : Bool) (rs : List Relation) (n : Nat)
    (h : ∀ r ∈ rs, ∀ t ∈ r.targets, t.IsLeaf) :
    ∃ joins, (Join.ofRelations kind included rs).run n =
        (joins, n + (rs.flatMap Relation.targets).length) ∧
      Join.targets joins = Source.renumbered n (rs.flatMap Relation.targets) ∧
      ∀ p, Join.Nests p joins → ∃ r ∈ rs, r.Nests p := by
  -- Attaching relations is forking joins that hold them.
  have hleaf : ∀ t ∈ Join.targets (rs.map fun r => ⟨included, kind, r⟩), t.IsLeaf := by
    rw [Join.targets_ofRelations]
    intro t ht
    obtain ⟨r, hr, hmem⟩ := List.mem_flatMap.mp ht
    exact h r hr t hmem
  obtain ⟨joins, hrun, hfork⟩ := Join.forkAll_run _ n hleaf
  rw [Join.targets_ofRelations, ← Join.ofRelations_eq] at hrun
  refine ⟨joins, hrun, ?_, fun p hp => Join.nests_ofRelations rs (hfork.nests p hp)⟩
  rw [hfork.targets, Join.targets_ofRelations]

/-- Relations that are attached to a relation follow those that it has. -/
theorem Relation.attach_run (r : Relation) (kind : JoinKind) (included : Bool) (rs : List Relation)
    (n : Nat) (h : ∀ other ∈ rs, ∀ t ∈ other.targets, t.IsLeaf) :
    ∃ joins, (r.attach kind included rs).run n =
        ({ r with joins := r.joins ++ joins }, n + (rs.flatMap Relation.targets).length) ∧
      ({ r with joins := r.joins ++ joins } : Relation).targets =
        r.targets ++ Source.renumbered n (rs.flatMap Relation.targets) ∧
      ∀ p, Join.Nests p joins → ∃ other ∈ rs, other.Nests p := by
  obtain ⟨joins, hrun, htargets, hnests⟩ := Join.ofRelations_run kind included rs n h
  refine ⟨joins, Supply.run_bind hrun, ?_, hnests⟩
  rw [Relation.targets_eq, Relation.targets_eq r, ← htargets, List.cons_append,
    ← Join.targets_append]

/-- A fork of a join tree draws the first id for the tree itself, which is no leaf, the second for
its base, and then one for each target. -/
theorem Source.fork_tree_run (id : SourceId) {left : Source} {joins : List Join} (n : Nat)
    (hleft : left.IsLeaf) (hjoins : ∀ t ∈ Join.targets joins, t.IsLeaf) :
    ∃ forked, (Source.joinTree id left joins).fork.run n =
        (.joinTree ⟨n⟩ (left.withId ⟨n + 1⟩) forked,
          n + 1 + (Source.joinTree id left joins).leaves.length) ∧
      Join.ForkOf (n + 1 + 1) joins forked := by
  obtain ⟨forked, hrun, hfork⟩ := Join.forkAll_run joins (n + 1 + 1) hjoins
  refine ⟨forked, ?_, hfork⟩
  rw [Source.fork, Supply.run_bind (rfl : SourceId.fresh.run n = (⟨n⟩, n + 1)),
    Supply.run_bind (Source.fork_leaf hleft (n + 1)), Supply.run_bind hrun, Source.leaves,
    List.length_cons, ← Nat.add_assoc, Nat.add_right_comm]
  rfl

/-- A fork of a source whose leaves are leaves draws one id for each of them, and for a join tree
one more. -/
theorem Source.fork_run (s : Source) (n : Nat) (h : ∀ t ∈ s.leaves, t.IsLeaf) :
    ∃ forked start, s.fork.run n = (forked, start + s.leaves.length) ∧ n ≤ start ∧
      forked.leaves = Source.renumbered start s.leaves ∧ ∀ p, forked.Nests p → s.Nests p := by
  match s with
  | .table id name label =>
      exact ⟨_, n, Source.fork_leaf (h _ (List.mem_cons_self ..)) n, Nat.le_refl n, rfl,
        fun p hp => hp⟩
  | .subquery id query label =>
      exact ⟨_, n, Source.fork_leaf (h _ (List.mem_cons_self ..)) n, Nat.le_refl n, rfl,
        fun p hp => hp⟩
  | .joinTree id left joins =>
      obtain ⟨forked, hrun, hfork⟩ := Source.fork_tree_run id n
        (h left (List.mem_cons_self ..)) fun t ht => h t (List.mem_cons_of_mem _ ht)
      refine ⟨.joinTree ⟨n⟩ (left.withId ⟨n + 1⟩) forked, n + 1, hrun, Nat.le_succ n, ?_, ?_⟩
      · rw [Source.leaves, Source.targets, Source.joins, hfork.targets]
        rfl
      · intro p hp
        rw [Source.Nests] at hp ⊢
        exact hp.imp Source.nests_withId.mp (hfork.nests p)

end RelationalQuery
