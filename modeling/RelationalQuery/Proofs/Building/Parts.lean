/-
  RelationalQuery.Proofs.Building.Parts — the parts of a query.

  A FROM tree has a base, which stands alone at the left, and the targets of its joins. The
  queries nested in a query are those in its expressions, those that its FROM clause reads, and
  those in the conditions and selections of its relations, for whichever sources these are
  given.

  Main definitions:
    * `Source.base`, `Source.targets`, `Source.leaves`: the FROM tree as a list.
    * `Expr.subqueries`, `Query.Nests`: the queries directly inside.
    * `Source.pinned`: the ids that always have a name.
    * `Query.Sound`: the invariant of queries, in every nested query too.
-/

import RelationalQuery.Scope.Occurrence

namespace RelationalQuery

/-! ## The FROM tree as a list -/

mutual

/-- The targets of a relation and of those below it, depth first. -/
def Relation.targets : Relation → List Source
  | ⟨_, target, _, _, _, joins⟩ => target :: Join.targets joins

/-- The targets of joins, depth first. -/
def Join.targets : List Join → List Source
  | [] => []
  | ⟨_, _, relation⟩ :: rest => relation.targets ++ Join.targets rest

end

namespace Source

/-- A table or a subquery. -/
def IsLeaf : Source → Prop
  | .joinTree .. => False
  | _ => True

/-- What stands at the left of all joins. -/
def base : Source → Source
  | .joinTree _ left _ => left
  | leaf => leaf

/-- The targets of all joins. -/
def targets (s : Source) : List Source := Join.targets s.joins

/-- The base and the targets. -/
def leaves (s : Source) : List Source := s.base :: s.targets

/-- The root of a tree is its base. -/
theorem root_eq_base {s : Source} (h : s.base.IsLeaf) : s.root = s.base := by
  match s, h with
  | .table .., _ => rfl
  | .subquery .., _ => rfl
  | .joinTree _ (.table ..) _, _ => rfl
  | .joinTree _ (.subquery ..) _, _ => rfl

theorem root_of_isLeaf {s : Source} (h : s.IsLeaf) : s.root = s := by
  match s, h with
  | .table .., _ => rfl
  | .subquery .., _ => rfl

theorem base_of_isLeaf {s : Source} (h : s.IsLeaf) : s.base = s := by
  match s, h with
  | .table .., _ => rfl
  | .subquery .., _ => rfl

theorem targets_of_isLeaf {s : Source} (h : s.IsLeaf) : s.targets = [] := by
  match s, h with
  | .table .., _ => rfl
  | .subquery .., _ => rfl

/-- A leaf is the only leaf of itself. -/
theorem leaves_of_isLeaf {s : Source} (h : s.IsLeaf) : s.leaves = [s] := by
  rw [leaves, base_of_isLeaf h, targets_of_isLeaf h]

theorem isLeaf_of_mem_leaves {s : Source} (h : s.IsLeaf) : ∀ t ∈ s.leaves, t.IsLeaf := by
  rw [leaves_of_isLeaf h]
  exact List.forall_mem_singleton.mpr h

end Source

/-- The targets of a relation: its own, and those below it. -/
theorem Relation.targets_eq (r : Relation) : r.targets = r.target :: Join.targets r.joins := by
  obtain ⟨_, _, _, _, _, _⟩ := r
  rw [Relation.targets]

/-- The targets of joins in two rows, one behind the other. -/
theorem Join.targets_append : (a b : List Join) →
    Join.targets (a ++ b) = Join.targets a ++ Join.targets b
  | [], _ => rfl
  | ⟨_, _, _⟩ :: rest, b => by
      rw [List.cons_append, Join.targets, Join.targets, Join.targets_append rest b,
        List.append_assoc]

/-- The targets below one of several joins are among those below all of them. -/
theorem Join.targets_subset : {joins : List Join} → {j : Join} → j ∈ joins →
    j.relation.targets ⊆ Join.targets joins
  | ⟨_, _, _⟩ :: rest, j, h => by
      intro t ht
      rw [Join.targets]
      rcases List.mem_cons.mp h with rfl | hrest
      · exact List.mem_append_left _ ht
      · exact List.mem_append_right _ (Join.targets_subset hrest ht)

/-- The occurrences of joins are those of their targets. -/
theorem Join.occurrences_eq : (joins : List Join) →
    Join.occurrences joins = (Join.targets joins).flatMap Source.occurrences
  | [] => by rw [Join.occurrences, Join.targets, List.flatMap_nil]
  | ⟨_, _, ⟨_, target, _, _, _, joins⟩⟩ :: rest => by
      rw [Join.occurrences, Join.targets, Relation.targets, Join.occurrences_eq joins,
        Join.occurrences_eq rest, List.flatMap_append, List.flatMap_cons]

/-- The occurrences of a tree are those of its leaves. -/
theorem Source.occurrences_eq : (s : Source) →
    s.occurrences = s.leaves.flatMap Source.occurrences
  | .table _ _ _ => (List.append_nil _).symm
  | .subquery _ _ _ => (List.append_nil _).symm
  | .joinTree _ left joins => by
      rw [Source.leaves, List.flatMap_cons, Source.occurrences, Join.occurrences_eq]
      rfl

/-- The occurrences of a query are those of its source. -/
theorem Query.occurrences_eq (q : Query) :
    q.occurrences = (q.source.map Source.occurrences).getD [] := by
  obtain ⟨_, _, _ | source, _, _, _, _, _, _⟩ := q
  · rw [Query.occurrences]
    rfl
  · rw [Query.occurrences]
    rfl

/-- A leaf is the first of its own occurrences. -/
theorem Source.occurrence_mem {s : Source} (h : s.IsLeaf) : s.occurrence ∈ s.occurrences := by
  match s, h with
  | .table .., _ => rw [Source.occurrences]; exact List.mem_cons_self ..
  | .subquery .., _ => rw [Source.occurrences]; exact List.mem_cons_self ..

/-! ## Nested queries -/

mutual

/-- The queries directly in an expression. -/
def Expr.subqueries : Expr → List Query
  | .literal _ _ | .value _ | .column _ _ => []
  | .collate e _ | .not e | .prefixOp _ e | .countDistinct e => e.subqueries
  | .equal lhs rhs | .notEqual lhs rhs | .is lhs rhs | .isNot lhs rhs | .infixOp _ lhs rhs =>
    lhs.subqueries ++ rhs.subqueries
  | .and es | .or es | .call _ es => Expr.subqueriesAll es
  | .inList e items => e.subqueries ++ Expr.subqueriesAll items
  | .inQuery e query => e.subqueries ++ [query]
  | .exists query => [query]
  | .between e low high => e.subqueries ++ low.subqueries ++ high.subqueries
  | .count counted => counted.subqueries

/-- Those of a list of expressions. -/
def Expr.subqueriesAll : List Expr → List Query
  | [] => []
  | e :: rest => e.subqueries ++ Expr.subqueriesAll rest

/-- Those of an entry of a select list. -/
def ResultColumn.subqueries : ResultColumn → List Query
  | .star _ => []
  | .expr e | .aliased e _ => e.subqueries

end

/-- The queries in a list of expressions are those in each of them. -/
theorem Expr.subqueriesAll_eq : (es : List Expr) →
    Expr.subqueriesAll es = es.flatMap Expr.subqueries
  | [] => by rw [Expr.subqueriesAll, List.flatMap_nil]
  | e :: rest => by rw [Expr.subqueriesAll, List.flatMap_cons, Expr.subqueriesAll_eq rest]

mutual

/-- The query stands directly in the FROM tree: as a leaf, or in what a relation says. -/
def Source.Nests (p : Query) : Source → Prop
  | .table _ _ _ => False
  | .subquery _ query _ => p = query
  | .joinTree _ left joins => left.Nests p ∨ Join.Nests p joins

def Join.Nests (p : Query) : List Join → Prop
  | [] => False
  | ⟨_, _, ⟨_, target, _, condition, selection, joins⟩⟩ :: rest =>
    target.Nests p ∨ (∃ left right, p ∈ (condition left right).flatMap Expr.subqueries) ∨
      (∃ right, p ∈ (selection right).flatMap ResultColumn.subqueries) ∨
      Join.Nests p joins ∨ Join.Nests p rest

end

/-- What stands inside joins in two rows stands inside one of the rows. -/
theorem Join.nests_append {p : Query} : {a b : List Join} →
    (Join.Nests p (a ++ b) ↔ Join.Nests p a ∨ Join.Nests p b)
  | [], b => by simp [Join.Nests]
  | ⟨_, _, ⟨_, _, _, _, _, _⟩⟩ :: rest, b => by
      rw [List.cons_append, Join.Nests, Join.Nests, Join.nests_append (a := rest)]
      simp only [or_assoc]

/-- The query stands directly in what the relation says or joins. -/
def Relation.Nests (r : Relation) (p : Query) : Prop :=
  r.target.Nests p ∨ (∃ left right, p ∈ (r.condition left right).flatMap Expr.subqueries) ∨
    (∃ right, p ∈ (r.selection right).flatMap ResultColumn.subqueries) ∨ Join.Nests p r.joins

/-- What stands inside a row of joins stands inside its first relation or inside the others. -/
theorem Join.nests_cons {p : Query} {included : Bool} {kind : JoinKind} {r : Relation}
    {rest : List Join} : Join.Nests p (⟨included, kind, r⟩ :: rest) ↔
      r.Nests p ∨ Join.Nests p rest := by
  obtain ⟨_, target, _, condition, selection, joins⟩ := r
  rw [Join.Nests, Relation.Nests]
  simp only [or_assoc]

/-- What stands inside the relation of a join stands inside the joins. -/
theorem Join.nests_of_mem {p : Query} : {joins : List Join} → {j : Join} → j ∈ joins →
    j.relation.Nests p → Join.Nests p joins
  | ⟨_, _, _⟩ :: rest, j, h, hp => by
      rw [Join.nests_cons]
      rcases List.mem_cons.mp h with rfl | hrest
      · exact Or.inl hp
      · exact Or.inr (Join.nests_of_mem hrest hp)

/-- What the base nests, the source nests. -/
theorem Source.nests_base {p : Query} {s : Source} (h : s.base.Nests p) : s.Nests p := by
  match s, h with
  | .table .., h => exact h
  | .subquery .., h => exact h
  | .joinTree .., h => exact Or.inl h

/-- What the joins nest, the source nests. -/
theorem Source.nests_joins {p : Query} {s : Source} (h : Join.Nests p s.joins) : s.Nests p := by
  match s, h with
  | .table .., h => exact h.elim
  | .subquery .., h => exact h.elim
  | .joinTree .., h => exact Or.inr h

namespace Query

/-- The queries directly in the expressions of a query. -/
def subqueries (q : Query) : List Query :=
  q.selection.flatMap ResultColumn.subqueries ++ q.filter.toList.flatMap Expr.subqueries ++
    q.groupBy.flatMap Expr.subqueries ++ q.having.toList.flatMap Expr.subqueries ++
    q.orderings.flatMap fun term => term.expr.subqueries

/-- The query stands directly in this one. -/
def Nests (q p : Query) : Prop :=
  p ∈ q.subqueries ∨ ∃ s, q.source = some s ∧ s.Nests p

end Query

/-! ## Ids that have a name -/

mutual

/-- The ids of tables and of the targets of joins, also those inside subqueries. -/
def Source.pinned : Source → List SourceId
  | .table id _ _ => [id]
  | .subquery _ query _ => query.pinned
  | .joinTree _ left joins => left.pinned ++ Join.pinned joins

def Join.pinned : List Join → List SourceId
  | [] => []
  | ⟨_, _, ⟨_, target, _, _, _, joins⟩⟩ :: rest =>
    target.id :: target.pinned ++ Join.pinned joins ++ Join.pinned rest

def Query.pinned : Query → List SourceId
  | ⟨_, _, source, _, _, _, _, _, _⟩ =>
    match source with
    | none => []
    | some source => source.pinned

end

/-- The pinned ids of joins: those of their targets, with what these pin. -/
theorem Join.pinned_eq : (joins : List Join) →
    Join.pinned joins = (Join.targets joins).flatMap fun t => t.id :: t.pinned
  | [] => by rw [Join.pinned, Join.targets, List.flatMap_nil]
  | ⟨_, _, ⟨_, target, _, _, _, joins⟩⟩ :: rest => by
      rw [Join.pinned, Join.targets, Relation.targets, Join.pinned_eq joins, Join.pinned_eq rest,
        List.flatMap_append, List.flatMap_cons]

/-- The pinned ids of a tree: what its base pins, and the targets with what they pin. -/
theorem Source.pinned_eq : (s : Source) →
    s.pinned = s.base.pinned ++ s.targets.flatMap fun t => t.id :: t.pinned
  | .table .. => (List.append_nil _).symm
  | .subquery .. => (List.append_nil _).symm
  | .joinTree _ left joins => by
      rw [Source.pinned, Join.pinned_eq]
      rfl

/-- The pinned ids of a query are those of its source. -/
theorem Query.pinned_eq (q : Query) : q.pinned = (q.source.map Source.pinned).getD [] := by
  obtain ⟨_, _, _ | source, _, _, _, _, _, _⟩ := q
  · rw [Query.pinned]
    rfl
  · rw [Query.pinned]
    rfl

/-- An id that belongs to a table or a target somewhere belongs to a named leaf everywhere. -/
def Coherent (pinned : List SourceId) (os : List Occurrence) : Prop :=
  ∀ id ∈ pinned, ∀ o ∈ os, o.id = id → o.name.isSome

/-- Fewer ids and fewer occurrences agree as well. -/
theorem Coherent.mono {pinned smaller : List SourceId} {os fewer : List Occurrence}
    (h : Coherent pinned os) (hids : smaller ⊆ pinned) (hos : fewer ⊆ os) :
    Coherent smaller fewer := fun id hid o ho => h id (hids hid) o (hos ho)

/-- Ids in two lists agree with the occurrences just when those in each list do. -/
theorem coherent_append {a b : List SourceId} {os : List Occurrence} :
    Coherent (a ++ b) os ↔ Coherent a os ∧ Coherent b os := List.forall_mem_append

/-- The first id agrees with the occurrences, and so do the others. -/
theorem coherent_cons {id : SourceId} {rest : List SourceId} {os : List Occurrence} :
    Coherent (id :: rest) os ↔
      (∀ o ∈ os, o.id = id → o.name.isSome) ∧ Coherent rest os := List.forall_mem_cons

/-- The targets of joins are pinned. -/
theorem Source.target_mem_pinned {s t : Source} (h : t ∈ s.targets) : t.id ∈ s.pinned := by
  rw [Source.pinned_eq]
  exact List.mem_append_right _ (List.mem_flatMap.mpr ⟨t, h, List.mem_cons_self ..⟩)

/-- What is pinned in a leaf is pinned in the whole tree. -/
theorem Source.pinned_subset {s t : Source} (h : t ∈ s.leaves) : t.pinned ⊆ s.pinned := by
  intro id hid
  rw [Source.pinned_eq]
  rcases List.mem_cons.mp h with rfl | ht
  · exact List.mem_append_left _ hid
  · exact List.mem_append_right _ (List.mem_flatMap.mpr ⟨t, ht, List.mem_cons_of_mem _ hid⟩)

/-- The occurrences of a leaf are among those of the tree. -/
theorem Source.occurrences_subset {s t : Source} (h : t ∈ s.leaves) :
    t.occurrences ⊆ s.occurrences := by
  intro o ho
  rw [Source.occurrences_eq]
  exact List.mem_flatMap.mpr ⟨t, h, ho⟩

/-! ## The invariant of queries -/

/-- The shape of every FROM tree that building gives. -/
structure Source.Formed (s : Source) : Prop where
  /-- Nothing is joined inside the base or inside a target. -/
  leaf : ∀ t ∈ s.leaves, t.IsLeaf
  /-- Only the base may have no name. -/
  named : ∀ t ∈ s.targets, t.name?.isSome
  /-- No two leaves are the same occurrence. -/
  distinct : (s.leaves.map Source.id).Nodup

/-- What holds of the FROM tree of every query that building gives. -/
structure Source.Proper (s : Source) : Prop extends s.Formed where
  coherent : Coherent s.pinned s.occurrences

/-- The FROM tree is proper, and so are those of all nested queries. -/
inductive Query.Sound : Query → Prop
  | intro {q : Query} (source : ∀ s, q.source = some s → s.Proper)
      (nested : ∀ p, q.Nests p → p.Sound) : q.Sound

/-- The source of a sound query is proper. -/
theorem Query.Sound.proper {q : Query} (h : q.Sound) {s : Source} (hs : q.source = some s) :
    s.Proper := by
  cases h with
  | intro source _ => exact source s hs

/-- Queries inside a sound query are sound. -/
theorem Query.Sound.nested {q p : Query} (h : q.Sound) (hp : q.Nests p) : p.Sound := by
  cases h with
  | intro _ nested => exact nested p hp

/-- The pins of a sound query agree with its occurrences. -/
theorem Query.Sound.coherent {q : Query} (h : q.Sound) : Coherent q.pinned q.occurrences := by
  rw [Query.pinned_eq, Query.occurrences_eq]
  cases hsource : q.source with
  | none =>
      intro id hid
      cases hid
  | some s => exact (h.proper hsource).coherent

end RelationalQuery
