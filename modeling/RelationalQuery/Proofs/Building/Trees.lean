/-
  RelationalQuery.Proofs.Building.Trees — join trees have ids of their own.

  A join tree is drawn an id like a leaf is, but it has no name, and nothing in SQL stands for it.
  So no leaf may have the id of a tree: otherwise a star of the tree would be written with the name
  of the leaf. A FROM tree is taken apart into its own id, if it is a join tree, and its leaves. A
  leaf of a new value is a known one, or has an id that was just drawn, and around it all is known;
  a tree is a known one, or has an id that was drawn for it alone.

  Main definitions:
    * `Source.trees`: the ids of the join trees in a FROM tree and in its subqueries.
    * `Session.Apart`: no leaf has the id of a tree.
    * `Session.Grows`: what makes a new value keep this.

  Main statement:
    * `Session.Reachable.apart`: every reachable session keeps them apart.
-/

import RelationalQuery.Proofs.Building.Reachable

namespace RelationalQuery

/-! ## Ids of join trees -/

mutual

/-- The ids of join trees, also of those inside subqueries. -/
def Source.trees : Source → List SourceId
  | .table _ _ _ => []
  | .subquery _ query _ => query.trees
  | .joinTree id left joins => id :: (left.trees ++ Join.trees joins)

def Join.trees : List Join → List SourceId
  | [] => []
  | ⟨_, _, ⟨_, target, _, _, _, joins⟩⟩ :: rest =>
    target.trees ++ Join.trees joins ++ Join.trees rest

def Query.trees : Query → List SourceId
  | ⟨_, _, source, _, _, _, _, _, _⟩ =>
    match source with
    | none => []
    | some source => source.trees

end

/-- The id of a join tree; a leaf has none of that kind. -/
def Source.ownTree : Source → List SourceId
  | .joinTree id _ _ => [id]
  | _ => []

/-- A leaf is no tree of joins. -/
theorem Source.ownTree_of_isLeaf {s : Source} (h : s.IsLeaf) : s.ownTree = [] := by
  match s, h with
  | .table .., _ => rfl
  | .subquery .., _ => rfl

/-- The trees inside joins are those inside their targets. -/
theorem Join.trees_eq : (joins : List Join) →
    Join.trees joins = (Join.targets joins).flatMap Source.trees
  | [] => by rw [Join.trees, Join.targets, List.flatMap_nil]
  | ⟨_, _, ⟨_, target, _, _, _, joins⟩⟩ :: rest => by
      rw [Join.trees, Join.targets, Relation.targets, Join.trees_eq joins, Join.trees_eq rest,
        List.flatMap_append, List.flatMap_cons]

/-- The trees of a source: itself if it is one, and those inside its leaves. -/
theorem Source.trees_eq : (s : Source) → s.trees = s.ownTree ++ s.leaves.flatMap Source.trees
  | .table _ _ _ => rfl
  | .subquery _ _ _ => (List.append_nil _).symm
  | .joinTree id left joins => by
      rw [Source.trees, Join.trees_eq]
      rfl

/-- The trees of a query are those of its source. -/
theorem Query.trees_eq (q : Query) : q.trees = (q.source.map Source.trees).getD [] := by
  obtain ⟨_, _, _ | source, _, _, _, _, _, _⟩ := q
  · rw [Query.trees]
    rfl
  · rw [Query.trees]
    rfl

/-- A leaf under another id has the same trees inside. -/
theorem Source.trees_withId {id : SourceId} {s : Source} (h : s.IsLeaf) :
    (s.withId id).trees = s.trees := by
  match s, h with
  | .table .., _ => rfl
  | .subquery .., _ => rfl

/-- A leaf under another alias has the same trees inside. -/
theorem Source.trees_setAlias {label : Alias} {s : Source} (h : s.IsLeaf) :
    (s.setAlias label).trees = s.trees := by
  match s, h with
  | .table .., _ => rfl
  | .subquery .., _ => rfl

/-- Of a leaf, only what is inside it has another id. -/
theorem Source.occurrences_of_isLeaf {s : Source} (h : s.IsLeaf) :
    s.occurrences = s.occurrence :: s.occurrences.tail := by
  match s, h with
  | .table .., _ => rfl
  | .subquery .., _ => rfl

/-- What is inside a leaf does not change with its id. -/
theorem Source.tail_withId {id : SourceId} {s : Source} (h : s.IsLeaf) :
    (s.withId id).occurrences.tail = s.occurrences.tail := by
  match s, h with
  | .table .., _ => rfl
  | .subquery .., _ => rfl

/-- What is inside a leaf does not change with its alias. -/
theorem Source.tail_setAlias {label : Alias} {s : Source} (h : s.IsLeaf) :
    (s.setAlias label).occurrences.tail = s.occurrences.tail := by
  match s, h with
  | .table .., _ => rfl
  | .subquery .., _ => rfl

/-- A tree keeps its own id under another alias. -/
theorem Source.ownTree_setAlias (label : Alias) (s : Source) :
    (s.setAlias label).ownTree = s.ownTree := by
  cases s <;> rfl

/-! ## Values in parts -/

namespace Held

/-- The leaves of the FROM trees of a value. -/
def parts : Held → List Source
  | .query q => (q.source.map Source.leaves).getD []
  | .source s => s.leaves
  | .relation r => r.targets

/-- The id of the value's own join tree. -/
def own : Held → List SourceId
  | .query q => (q.source.map Source.ownTree).getD []
  | .source s => s.ownTree
  | .relation _ => []

/-- The ids of all join trees in a value. -/
def trees (v : Held) : List SourceId := v.own ++ v.parts.flatMap Source.trees

/-- The occurrences of a held value are those of its parts. -/
theorem occurrences_eq (v : Held) : v.occurrences = v.parts.flatMap Source.occurrences := by
  cases v with
  | query q =>
      rw [occurrences, parts, Query.occurrences_eq]
      cases q.source with
      | none => rfl
      | some s => exact s.occurrences_eq
  | source s => exact s.occurrences_eq
  | relation r => rfl

theorem trees_query (q : Query) : (Held.query q).trees = q.trees := by
  rw [trees, own, parts, Query.trees_eq]
  cases q.source with
  | none => rfl
  | some s => exact s.trees_eq.symm

end Held

namespace Session

/-! ## Trees and leaves apart -/

/-- The id is that of a leaf of a held value. -/
def Leaf (σ : Session) (id : SourceId) : Prop := ∃ v ∈ σ.held, ∃ o ∈ v.occurrences, o.id = id

/-- The id is that of a join tree in a held value. -/
def Tree (σ : Session) (id : SourceId) : Prop := ∃ v ∈ σ.held, id ∈ v.trees

/-- Join trees have ids that were drawn, and not for leaves. -/
structure Apart (σ : Session) : Prop where
  below : ∀ id, σ.Tree id → id.index < σ.next
  apart : ∀ id, σ.Tree id → ¬σ.Leaf id

/-- A leaf that is known or new, around what is known. -/
structure Part (σ : Session) (u : Source) : Prop where
  leaf : u.IsLeaf
  id_origin : σ.next ≤ u.id.index ∨ σ.Leaf u.id
  /-- The leaf itself stands before those inside it. -/
  inside : ∀ o ∈ u.occurrences.tail, σ.Leaf o.id
  trees : ∀ id ∈ u.trees, σ.Tree id

/-- What makes a new value keep trees and leaves apart. -/
structure Grows (σ : Session) (next : Nat) (v : Held) : Prop where
  next_le : σ.next ≤ next
  parts : ∀ u ∈ v.parts, σ.Part u
  /-- The value's own tree is known, or its id was drawn for it alone. -/
  own : ∀ id ∈ v.own, (σ.next ≤ id.index ∧ id.index < next ∧ ∀ u ∈ v.parts, u.id ≠ id) ∨ σ.Tree id

section Growing

variable {σ : Session}

/-- The id of a leaf was drawn before. -/
theorem Invariant.leaf_below (h : σ.Invariant) {id : SourceId} (hid : σ.Leaf id) :
    id.index < σ.next := by
  obtain ⟨v, hv, o, ho, rfl⟩ := hid
  exact h.below v hv o ho

/-- **A value that grows from what is held keeps trees and leaves apart.** -/
theorem Apart.grow (ha : σ.Apart) (h : σ.Invariant) {next : Nat} {v : Held}
    (hv : σ.Grows next v) : Apart ⟨next, v :: σ.held⟩ := by
  have hle := hv.next_le
  -- A leaf of the grown session is new, with an id drawn now, or it was a leaf before.
  have hleaf : ∀ id, Leaf ⟨next, v :: σ.held⟩ id →
      (∃ u ∈ v.parts, u.id = id ∧ σ.next ≤ id.index) ∨ σ.Leaf id := by
    rintro id ⟨w, hw, o, ho, rfl⟩
    rcases List.mem_cons.mp hw with rfl | hold
    · rw [Held.occurrences_eq] at ho
      obtain ⟨u, hu, ho⟩ := List.mem_flatMap.mp ho
      have hpart := hv.parts u hu
      rw [Source.occurrences_of_isLeaf hpart.leaf, List.mem_cons] at ho
      rcases ho with rfl | hinside
      · exact hpart.id_origin.imp (fun hdrawn => ⟨u, hu, rfl, hdrawn⟩) fun hold => hold
      · exact Or.inr (hpart.inside o hinside)
    · exact Or.inr ⟨w, hold, o, ho, rfl⟩
  -- And so is a tree; a new one has none of the ids of the new leaves.
  have htree : ∀ id, Tree ⟨next, v :: σ.held⟩ id →
      (σ.next ≤ id.index ∧ id.index < next ∧ ∀ u ∈ v.parts, u.id ≠ id) ∨ σ.Tree id := by
    rintro id ⟨w, hw, hid⟩
    rcases List.mem_cons.mp hw with rfl | hold
    · rcases List.mem_append.mp hid with hown | hinside
      · exact hv.own id hown
      · obtain ⟨u, hu, hid⟩ := List.mem_flatMap.mp hinside
        exact Or.inr ((hv.parts u hu).trees id hid)
    · exact Or.inr ⟨w, hold, hid⟩
  constructor
  · intro id hid
    rcases htree id hid with ⟨_, hbelow, _⟩ | hold
    · exact hbelow
    · exact Nat.lt_of_lt_of_le (ha.below id hold) hle
  · -- Of a tree and a leaf, each may be new or known, and what is known was drawn before.
    intro id hid hmem
    rcases htree id hid with ⟨hdrawn, _, hnot⟩ | hold
    · rcases hleaf id hmem with ⟨u, hu, heq, _⟩ | hknown
      · exact hnot u hu heq
      · exact absurd (h.leaf_below hknown) (Nat.not_lt.mpr hdrawn)
    · rcases hleaf id hmem with ⟨_, _, _, hdrawn⟩ | hknown
      · exact absurd (ha.below id hold) (Nat.not_lt.mpr hdrawn)
      · exact ha.apart id hold hknown

/-- An operation whose value grows the session keeps leaves and trees apart. -/
theorem Apart.draw (ha : σ.Apart) (h : σ.Invariant) {op : Supply Held} {v : Held} {next : Nat}
    (hrun : op.run σ.next = (v, next)) (hv : σ.Grows next v) : (σ.draw op).Apart := by
  rw [Session.draw, hrun]
  exact ha.grow h hv

/-! ## Parts -/

/-- The leaves of held values are parts. -/
theorem Invariant.part (h : σ.Invariant) {v : Held} (hv : v ∈ σ.held) {u : Source}
    (hu : u ∈ v.parts) : σ.Part u := by
  -- What is held is formed, so the leaves of its FROM tree are leaves.
  have hleaf : u.IsLeaf := by
    cases v with
    | query q =>
        obtain ⟨hformed, _⟩ := h.formed _ hv
        rw [Held.parts] at hu
        cases hs : q.source with
        | none =>
            rw [hs] at hu
            cases hu
        | some s =>
            rw [hs] at hu
            exact (hformed s hs).leaf u hu
    | source s => exact (h.formed _ hv).1.leaf u hu
    | relation r => exact ((h.formed _ hv).1 u hu).1
  have hoccurrences : ∀ o ∈ u.occurrences, σ.Leaf o.id := by
    intro o ho
    refine ⟨v, hv, o, ?_, rfl⟩
    rw [Held.occurrences_eq]
    exact List.mem_flatMap.mpr ⟨u, hu, ho⟩
  refine ⟨hleaf, Or.inr (hoccurrences _ (Source.occurrence_mem hleaf)),
    fun o ho => hoccurrences o (List.mem_of_mem_tail ho), ?_⟩
  intro id hid
  exact ⟨v, hv, List.mem_append_right _ (List.mem_flatMap.mpr ⟨u, hu, hid⟩)⟩

/-- A new table can be a part of what is held next. -/
theorem part_table (name : String) (label : Option Alias) :
    σ.Part (.table ⟨σ.next⟩ name label) :=
  ⟨trivial, Or.inl (Nat.le_refl _), List.forall_mem_nil _, List.forall_mem_nil _⟩

/-- A query whose leaves and trees are known stands in a new leaf. -/
theorem part_subquery {q : Query} (hleaves : ∀ o ∈ q.occurrences, σ.Leaf o.id)
    (htrees : ∀ id ∈ q.trees, σ.Tree id) (label : Option Alias) :
    σ.Part (.subquery ⟨σ.next⟩ q label) :=
  ⟨trivial, Or.inl (Nat.le_refl _), hleaves, htrees⟩

/-- A new source for a held query can be a part of what is held next. -/
theorem part_query {q : Query} (hq : .query q ∈ σ.held) (label : Option Alias) :
    σ.Part (.subquery ⟨σ.next⟩ q label) := by
  refine part_subquery (fun o ho => ⟨_, hq, o, ho, rfl⟩) (fun id hid => ⟨_, hq, ?_⟩) label
  rw [Held.trees_query]
  exact hid

/-- A part may get an id that was not drawn yet. -/
theorem Part.withId {u : Source} (h : σ.Part u) {k : Nat} (hk : σ.next ≤ k) :
    σ.Part (u.withId ⟨k⟩) := by
  refine ⟨Source.isLeaf_withId h.leaf, ?_, ?_, ?_⟩
  · rw [Source.id_withId]
    exact Or.inl hk
  · rw [Source.tail_withId h.leaf]
    exact h.inside
  · rw [Source.trees_withId h.leaf]
    exact h.trees

/-- A part may get another alias. -/
theorem Part.setAlias {u : Source} (h : σ.Part u) (label : Alias) : σ.Part (u.setAlias label) := by
  refine ⟨Source.isLeaf_setAlias label h.leaf, ?_, ?_, ?_⟩
  · rw [Source.id_setAlias]
    exact h.id_origin
  · rw [Source.tail_setAlias h.leaf]
    exact h.inside
  · rw [Source.trees_setAlias h.leaf]
    exact h.trees

/-- Parts may be numbered from any id on that was not drawn yet. -/
theorem part_renumbered {ts : List Source} {start : Nat} (hts : ∀ t ∈ ts, σ.Part t)
    (hstart : σ.next ≤ start) : ∀ u ∈ Source.renumbered start ts, σ.Part u := by
  intro u hu
  obtain ⟨t, ht, k, hlow, _, rfl⟩ := Source.mem_renumbered ts start u hu
  exact (hts t ht).withId (Nat.le_trans hstart hlow)

/-! ## Operations -/

/-- A value with the parts of held ones, and with the tree of one or none. -/
theorem Grows.of_known {v : Held} (hparts : ∀ u ∈ v.parts, σ.Part u)
    (hown : ∀ id ∈ v.own, σ.Tree id) : σ.Grows σ.next v :=
  ⟨Nat.le_refl _, hparts, fun id hid => Or.inr (hown id hid)⟩

/-- A new value that is a leaf, or has one. -/
theorem Grows.of_new {v : Held} {u : Source} (hparts : v.parts = [u]) (hown : v.own = [])
    (hu : σ.Part u) : σ.Grows (σ.next + 1) v := by
  refine ⟨Nat.le_succ _, ?_, ?_⟩
  · rw [hparts]
    exact List.forall_mem_singleton.mpr hu
  · rw [hown]
    exact List.forall_mem_nil _

/-- The trees of a held value are known. -/
theorem own_tree {v : Held} (hv : v ∈ σ.held) : ∀ id ∈ v.own, σ.Tree id :=
  fun _ hid => ⟨v, hv, List.mem_append_left _ hid⟩

/-- A value with the same leaves and trees as a held one grows the session. -/
theorem Invariant.grows_again (h : σ.Invariant) {v v' : Held} (hv : v ∈ σ.held)
    (hparts : v'.parts = v.parts) (hown : v'.own = v.own) : σ.Grows σ.next v' := by
  refine .of_known ?_ ?_
  · rw [hparts]
    exact fun u hu => h.part hv hu
  · rw [hown]
    exact own_tree hv

/-- The source of a held query, on its own. -/
theorem Invariant.grows_source (h : σ.Invariant) {q : Query} (hq : .query q ∈ σ.held) {s : Source}
    (hs : q.source = some s) : σ.Grows σ.next (.source s) := by
  refine h.grows_again hq ?_ ?_
  · rw [Held.parts, Held.parts, hs]
    rfl
  · rw [Held.own, Held.own, hs]
    rfl

/-- A query over a source grows as the source does. -/
theorem Grows.query {next : Nat} {s : Source} (h : σ.Grows next (.source s)) {q : Query}
    (hs : q.source = some s) : σ.Grows next (.query q) := by
  have hparts : (Held.query q).parts = s.leaves := by
    rw [Held.parts, hs]
    rfl
  have hown : (Held.query q).own = s.ownTree := by
    rw [Held.own, hs]
    rfl
  refine ⟨h.next_le, ?_, ?_⟩
  · rw [hparts]
    exact h.parts
  · rw [hown, hparts]
    exact h.own

/-- Naming the base changes no id. -/
theorem Grows.setAlias {next : Nat} {s : Source} (h : σ.Grows next (.source s)) (label : Alias) :
    σ.Grows next (.source (s.setAlias label)) := by
  have hleaves := Source.leaves_setAlias (s := s) label
  have hids : ∀ u ∈ (s.setAlias label).leaves, ∃ t ∈ s.leaves, u.id = t.id := by
    rw [hleaves]
    refine List.forall_mem_cons.mpr ⟨?_, fun u hu => ⟨u, List.mem_cons_of_mem _ hu, rfl⟩⟩
    exact ⟨s.base, List.mem_cons_self .., Source.id_setAlias _ label⟩
  obtain ⟨hbase, htargets⟩ := List.forall_mem_cons.mp h.parts
  refine ⟨h.next_le, ?_, ?_⟩
  · rw [Held.parts, hleaves]
    exact List.forall_mem_cons.mpr ⟨hbase.setAlias label, htargets⟩
  · rw [Held.own, Source.ownTree_setAlias]
    intro id hid
    refine (h.own id hid).imp (fun hnew => ⟨hnew.1, hnew.2.1, ?_⟩) (fun hold => hold)
    intro u hu
    obtain ⟨t, ht, heq⟩ := hids u hu
    rw [heq]
    exact hnew.2.2 t ht

/-- The fork of a held source grows the session. -/
theorem Invariant.grows_fork (h : σ.Invariant) {s : Source} (hs : .source s ∈ σ.held) :
    ∃ forked next, s.fork.run σ.next = (forked, next) ∧ σ.Grows next (.source forked) := by
  have hparts : ∀ t ∈ s.leaves, σ.Part t := fun t ht => h.part hs ht
  match s, hparts with
  | .table id name label, hparts =>
      have hown := hparts (.table id name label) (List.mem_cons_self ..)
      exact ⟨_, _, Source.fork_leaf hown.leaf _, .of_new rfl rfl (hown.withId (Nat.le_refl _))⟩
  | .subquery id q label, hparts =>
      have hown := hparts (.subquery id q label) (List.mem_cons_self ..)
      exact ⟨_, _, Source.fork_leaf hown.leaf _, .of_new rfl rfl (hown.withId (Nat.le_refl _))⟩
  | .joinTree id left joins, hparts =>
      have hleft : σ.Part left := hparts left (List.mem_cons_self ..)
      have hjoins : ∀ t ∈ Join.targets joins, σ.Part t :=
        fun t ht => hparts t (List.mem_cons_of_mem _ ht)
      obtain ⟨forked, hrun, hfork⟩ := Source.fork_tree_run id σ.next hleft.leaf
        fun t ht => (hjoins t ht).leaf
      -- The leaves of the forked tree are those of the old one, numbered from behind its own id.
      have hleaves : (Source.joinTree ⟨σ.next⟩ (left.withId ⟨σ.next + 1⟩) forked).leaves =
          Source.renumbered (σ.next + 1) (left :: Join.targets joins) := by
        rw [Source.leaves, Source.targets, Source.joins, hfork.targets]
        rfl
      refine ⟨_, _, hrun, by omega, ?_, ?_⟩
      · rw [Held.parts, hleaves]
        exact part_renumbered hparts (Nat.le_succ _)
      · -- The tree's id is drawn before those of the leaves.
        refine List.forall_mem_singleton.mpr (Or.inl ⟨Nat.le_refl _, by show σ.next < _; omega, ?_⟩)
        rw [Held.parts, hleaves]
        intro u hu heq
        obtain ⟨t, _, k, hlow, _, rfl⟩ := Source.mem_renumbered _ _ u hu
        rw [Source.id_withId] at heq
        cases heq
        exact absurd hlow (Nat.not_succ_le_self _)

/-- The fork of a held relation grows the session. -/
theorem Invariant.grows_forkRelation (h : σ.Invariant) {r : Relation}
    (hr : .relation r ∈ σ.held) :
    ∃ forked next, r.fork.run σ.next = (forked, next) ∧ σ.Grows next (.relation forked) := by
  have hparts : ∀ t ∈ r.targets, σ.Part t := fun t ht => h.part hr ht
  obtain ⟨forked, hrun, hfork⟩ := Relation.fork_run r σ.next fun t ht => (hparts t ht).leaf
  refine ⟨forked, _, hrun, Nat.le_add_right _ _, ?_, List.forall_mem_nil _⟩
  rw [Held.parts, hfork.targets]
  exact part_renumbered hparts (Nat.le_refl _)

/-- Another alias for the target of a relation does not change how it grows the session. -/
theorem Grows.aliasTarget {next : Nat} {r : Relation} (h : σ.Grows next (.relation r))
    (label : Alias) : σ.Grows next (.relation { r with target := r.target.setAlias label }) := by
  have hparts : ∀ u ∈ r.targets, σ.Part u := h.parts
  rw [Relation.targets_eq] at hparts
  obtain ⟨htarget, hjoins⟩ := List.forall_mem_cons.mp hparts
  refine ⟨h.next_le, ?_, List.forall_mem_nil _⟩
  rw [Held.parts, Relation.targets_eq]
  exact List.forall_mem_cons.mpr ⟨htarget.setAlias label, hjoins⟩

/-- The targets of held relations are parts. -/
theorem Invariant.part_targets (h : σ.Invariant) {rs : List Relation}
    (hrs : ∀ r ∈ rs, .relation r ∈ σ.held) : ∀ t ∈ rs.flatMap Relation.targets, σ.Part t := by
  intro t ht
  obtain ⟨r, hr, ht⟩ := List.mem_flatMap.mp ht
  exact h.part (hrs r hr) ht

/-- Relations that are joined to a held relation grow the session. -/
theorem Invariant.grows_attachRelation (h : σ.Invariant) {r : Relation}
    (hr : .relation r ∈ σ.held) (kind : JoinKind) (included : Bool) {rs : List Relation}
    (hrs : ∀ other ∈ rs, .relation other ∈ σ.held) :
    ∃ attached next, (r.attach kind included rs).run σ.next = (attached, next) ∧
      σ.Grows next (.relation attached) := by
  obtain ⟨joins, hrun, hall, _⟩ := r.attach_run kind included rs σ.next
    fun other hother t ht => (h.part (hrs other hother) ht).leaf
  refine ⟨{ r with joins := r.joins ++ joins }, _, hrun, Nat.le_add_right _ _, ?_,
    List.forall_mem_nil _⟩
  rw [Held.parts, hall]
  exact List.forall_mem_append.mpr ⟨fun t ht => h.part hr ht,
    part_renumbered (h.part_targets hrs) (Nat.le_refl _)⟩

/-- Attaching draws an id for the tree if the source was a leaf. -/
theorem attach_own {s attached : Source} {more : List Join} {n next : Nat}
    (h : (s.attach more).run n = (attached, next)) :
    attached.ownTree = s.ownTree ∨ (attached.ownTree = [⟨n⟩] ∧ next = n + 1) := by
  match s, h with
  | .table .., h =>
      cases h
      exact Or.inr ⟨rfl, rfl⟩
  | .subquery .., h =>
      cases h
      exact Or.inr ⟨rfl, rfl⟩
  | .joinTree .., h =>
      cases h
      exact Or.inl rfl

/-- The id that is drawn behind those of new leaves belongs neither to these nor to older ones. -/
theorem apart_renumbered {ts us : List Source} {n : Nat} (hts : ∀ t ∈ ts, t.id.index < n) :
    ∀ t ∈ ts ++ Source.renumbered n us, t.id ≠ ⟨n + us.length⟩ := by
  refine List.forall_mem_append.mpr ⟨?_, ?_⟩
  · intro t ht heq
    have hbelow := hts t ht
    rw [heq] at hbelow
    exact absurd hbelow (Nat.not_lt.mpr (Nat.le_add_right _ _))
  · intro u hu heq
    obtain ⟨t, _, k, _, hhigh, rfl⟩ := Source.mem_renumbered _ _ u hu
    rw [Source.id_withId] at heq
    cases heq
    exact absurd hhigh (Nat.lt_irrefl _)

/-- Relations that are joined to a held query grow the session. -/
theorem Invariant.grows_attach (h : σ.Invariant) {q : Query} (hq : .query q ∈ σ.held)
    (kind : JoinKind) (included : Bool) {rs : List Relation}
    (hrs : ∀ r ∈ rs, .relation r ∈ σ.held) :
    ∃ attached next, (q.attach kind included rs).run σ.next = (attached, next) ∧
      σ.Grows next (.query attached) := by
  cases hs : q.source with
  -- Without a source the query stays as it is.
  | none =>
      refine ⟨q, σ.next, ?_, h.grows_again hq rfl rfl⟩
      rw [Query.attach, hs]
      rfl
  | some s =>
      have hparts : ∀ t ∈ s.leaves, σ.Part t := (h.grows_source hq hs).parts
      have hknown : ∀ t ∈ s.leaves, t.id.index < σ.next := by
        intro t ht
        refine h.below _ hq t.occurrence ?_
        rw [Held.occurrences, Query.occurrences_eq, hs]
        exact Source.occurrences_subset ht (Source.occurrence_mem (hparts t ht).leaf)
      have hown : ∀ id ∈ s.ownTree, σ.Tree id := by
        intro id hid
        refine own_tree hq id ?_
        rw [Held.own, hs]
        exact hid
      obtain ⟨joins, attached, next, hrun, hattach, hnext, hleaves, _⟩ :=
        Query.attach_run hs kind included rs σ.next
          fun other hother t ht => (h.part (hrs other hother) ht).leaf
      have hsource : σ.Grows next (.source attached) := by
        refine ⟨by omega, ?_, ?_⟩
        · rw [Held.parts, hleaves]
          exact List.forall_mem_append.mpr
            ⟨hparts, part_renumbered (h.part_targets hrs) (Nat.le_refl _)⟩
        · rw [Held.own, Held.parts, hleaves]
          rcases attach_own hattach with hsame | ⟨hnew, rfl⟩
          · rw [hsame]
            exact fun id hid => Or.inr (hown id hid)
          · -- The tree's id is drawn after those of the targets.
            rw [hnew]
            exact List.forall_mem_singleton.mpr
              (Or.inl ⟨Nat.le_add_right _ _, Nat.lt_succ_self _, apart_renumbered hknown⟩)
      exact ⟨{ q with source := some attached }, next, hrun, hsource.query rfl⟩

/-- The counting query of a held query grows the session. -/
theorem Invariant.grows_count (h : σ.Invariant) {q : Query} (hq : .query q ∈ σ.held) :
    ∃ counting next, q.countQuery.run σ.next = (counting, next) ∧
      σ.Grows next (.query counting) := by
  rw [Query.countQuery_eq]
  cases hplace : q.countedInPlace? with
  -- The query becomes a new leaf, and what stands in it was held before.
  | none =>
      have hnew : σ.Part (.subquery ⟨σ.next⟩ q.unordered none) := by
        refine part_subquery (fun o ho => ⟨_, hq, o, ?_, rfl⟩) (fun id hid => ⟨_, hq, ?_⟩) none
        · rw [Query.occurrences_eq] at ho
          rw [Held.occurrences, Query.occurrences_eq]
          exact ho
        · rw [Query.trees_eq] at hid
          rw [Held.trees_query, Query.trees_eq]
          exact hid
      exact ⟨_, σ.next + 1, rfl, .of_new rfl rfl hnew⟩
  -- The counting query reads what the query reads.
  | some counting =>
      have hsource : counting.source = q.source := (Query.parts_of_countedInPlace? hplace).1
      refine ⟨counting, σ.next, rfl, h.grows_again hq ?_ ?_⟩
      · rw [Held.parts, Held.parts, hsource]
      · rw [Held.own, Held.own, hsource]

/-! ## Runs -/

/-- A leaf of a held value, on its own. -/
theorem Invariant.grows_leaf (h : σ.Invariant) {v : Held} (hv : v ∈ σ.held) {u : Source}
    (hu : u ∈ v.parts) : σ.Grows σ.next (.source u) := by
  have hpart := h.part hv hu
  refine .of_known ?_ ?_
  · rw [Held.parts, Source.leaves_of_isLeaf hpart.leaf]
    exact List.forall_mem_singleton.mpr hpart
  · rw [Held.own, Source.ownTree_of_isLeaf hpart.leaf]
    exact List.forall_mem_nil _

/-- A relation in a held value, on its own. -/
theorem Invariant.grows_below (h : σ.Invariant) {v : Held} (hv : v ∈ σ.held) {joins : List Join}
    (hjoins : Join.targets joins ⊆ v.parts) {j : Join} (hj : j ∈ joins) :
    σ.Grows σ.next (.relation j.relation) :=
  .of_known (fun _ hu => h.part hv (hjoins (Join.targets_subset hj hu))) (List.forall_mem_nil _)

/-- A sound query of which all leaves and trees are known. -/
theorem Grows.of_sound {q : Query} (hsound : q.Sound) (hleaves : ∀ o ∈ q.occurrences, σ.Leaf o.id)
    (htrees : ∀ id ∈ q.trees, σ.Tree id) : σ.Grows σ.next (.query q) := by
  cases hs : q.source with
  | none =>
      refine .of_known ?_ ?_
      · rw [Held.parts, hs]
        exact List.forall_mem_nil _
      · rw [Held.own, hs]
        exact List.forall_mem_nil _
  | some s =>
      rw [Query.occurrences_eq, hs] at hleaves
      rw [Query.trees_eq, hs, Option.map_some, Option.getD_some, Source.trees_eq] at htrees
      -- The occurrences of a leaf are among those of the query.
      have hknown : ∀ t ∈ s.leaves, ∀ o ∈ t.occurrences, σ.Leaf o.id := fun t ht o ho =>
        hleaves o (Source.occurrences_subset ht ho)
      refine Grows.query (.of_known ?_ fun id hid => htrees id (List.mem_append_left _ hid)) hs
      intro t ht
      have hleaf := (hsound.proper hs).leaf t ht
      refine ⟨hleaf, Or.inr (hknown t ht _ (Source.occurrence_mem hleaf)),
        fun o ho => hknown t ht o (List.mem_of_mem_tail ho), ?_⟩
      intro id hid
      exact htrees id (List.mem_append_right _ (List.mem_flatMap.mpr ⟨t, ht, hid⟩))

/-- The target of a relation to a table is a new leaf. -/
theorem tableTarget_part (σ : Session) (name table : String) :
    ∃ target, (Relation.tableTarget name table).run σ.next = (target, σ.next + 1) ∧
      σ.Part target := by
  refine ⟨_, rfl, ?_⟩
  split
  · exact part_table table none
  · exact part_table table (some (.derived name))

/-- A relation without joins has its target as its only part. -/
theorem relation_parts {r : Relation} (h : r.joins = []) :
    (Held.relation r).parts = [r.target] := by
  rw [Held.parts, Relation.targets_eq, h]
  rfl

/-- **Every reachable session keeps trees and leaves apart.** -/
theorem Reachable.apart (hσ : σ.Reachable) : σ.Apart := by
  induction hσ with
  | start => exact ⟨fun _ h => absurd h (by rintro ⟨_, hv, _⟩; cases hv),
      fun _ h => absurd h (by rintro ⟨_, hv, _⟩; cases hv)⟩
  | elsewhere _ hnext ih =>
      exact ⟨fun id hid => Nat.lt_of_lt_of_le (ih.below id hid) hnext, ih.apart⟩
  | tableSource hσ name ih =>
      exact ih.draw hσ.invariant (Supply.run_map rfl) (.of_new rfl rfl (part_table name none))
  | querySource hσ hq name ih =>
      exact ih.draw hσ.invariant (Supply.run_map rfl) (.of_new rfl rfl (part_query hq _))
  | nameSource hσ hs label ih =>
      exact ih.grow hσ.invariant ((hσ.invariant.grows_again hs rfl rfl).setAlias label)
  | forkSource hσ hs ih =>
      obtain ⟨forked, next, hrun, hgrows⟩ := hσ.invariant.grows_fork hs
      exact ih.draw hσ.invariant (Supply.run_map hrun) hgrows
  | sourceOf hσ hq hs ih => exact ih.grow hσ.invariant (hσ.invariant.grows_source hq hs)
  | baseOf hσ hs ih =>
      exact ih.grow hσ.invariant (hσ.invariant.grows_leaf hs (List.mem_cons_self ..))
  | @queryOf _ hσ id q label hs ih =>
      have hq : q.Sound := (hσ.invariant.formed _ hs).2 q (by rw [Source.Nests])
      refine ih.grow hσ.invariant (.of_sound hq ?_ ?_)
      · intro o ho
        refine ⟨_, hs, o, ?_, rfl⟩
        rw [Held.occurrences, Source.occurrences]
        exact List.mem_cons_of_mem _ ho
      · intro id hid
        refine ⟨_, hs, List.mem_append_right _
          (List.mem_flatMap.mpr ⟨_, List.mem_cons_self .., ?_⟩)⟩
        exact hid
  | @targetOf _ hσ r hr ih =>
      refine ih.grow hσ.invariant (hσ.invariant.grows_leaf hr ?_)
      rw [Held.parts, Relation.targets_eq]
      exact List.mem_cons_self ..
  | relationOf hσ hs hj ih =>
      refine ih.grow hσ.invariant (hσ.invariant.grows_below hs ?_ hj)
      exact fun t ht => List.mem_cons_of_mem _ ht
  | @relationBelow _ hσ r hr j hj ih =>
      refine ih.grow hσ.invariant (hσ.invariant.grows_below hr ?_ hj)
      intro t ht
      rw [Held.parts, Relation.targets_eq]
      exact List.mem_cons_of_mem _ ht
  | @foreignKey σ hσ name table mapping ih =>
      obtain ⟨target, htarget, hnew⟩ := tableTarget_part σ name table
      exact ih.draw hσ.invariant (Supply.run_map (Supply.run_bind htarget))
        (.of_new (relation_parts rfl) rfl hnew)
  | @toTable σ hσ name table condition called _ _ ih _ =>
      obtain ⟨target, htarget, hnew⟩ := tableTarget_part σ name table
      exact ih.draw hσ.invariant (Supply.run_map (Supply.run_bind htarget))
        (.of_new (relation_parts rfl) rfl hnew)
  | @toQuery σ hσ name q hq condition called _ _ ih _ =>
      exact ih.draw hσ.invariant (Supply.run_map (Supply.run_bind rfl))
        (.of_new (relation_parts rfl) rfl (part_query hq _))
  | forkRelation hσ hr ih =>
      obtain ⟨forked, next, hrun, hgrows⟩ := hσ.invariant.grows_forkRelation hr
      exact ih.draw hσ.invariant (Supply.run_map hrun) hgrows
  | aliasRelation hσ hr name ih =>
      obtain ⟨forked, next, hrun, hgrows⟩ := hσ.invariant.grows_forkRelation hr
      exact ih.draw hσ.invariant (Supply.run_map (Supply.run_bind hrun))
        (hgrows.aliasTarget (.given name))
  | @restrictRelation _ hσ r hr condition called _ _ ih _ =>
      refine ih.grow hσ.invariant (hσ.invariant.grows_again hr ?_ rfl)
      rw [Held.parts, Held.parts, Relation.targets_eq, Relation.targets_eq]
      rfl
  | @selectRelation _ hσ r hr selection called _ _ ih _ =>
      refine ih.grow hσ.invariant (hσ.invariant.grows_again hr ?_ rfl)
      rw [Held.parts, Held.parts, Relation.targets_eq, Relation.targets_eq]
      rfl
  | attachRelation hσ hr kind included relations hrelations ih =>
      obtain ⟨attached, next, hrun, hgrows⟩ :=
        hσ.invariant.grows_attachRelation hr kind included hrelations
      exact ih.draw hσ.invariant (Supply.run_map hrun) hgrows
  | emptyQuery hσ ih =>
      exact ih.grow hσ.invariant (.of_known (List.forall_mem_nil _) (List.forall_mem_nil _))
  | ofSource hσ hs ih =>
      exact ih.grow hσ.invariant ((hσ.invariant.grows_again hs rfl rfl).query rfl)
  | table hσ name ih =>
      exact ih.draw hσ.invariant (Supply.run_map rfl) (.of_new rfl rfl (part_table name none))
  | ofQuery hσ hq name ih =>
      exact ih.draw hσ.invariant (Supply.run_map rfl) (.of_new rfl rfl (part_query hq _))
  | @aliased _ hσ q hq name ih =>
      cases hs : q.source with
      | none =>
          refine ih.grow hσ.invariant (hσ.invariant.grows_again hq ?_ ?_)
          · rw [Held.parts, Held.parts, Query.aliased, hs]
            rfl
          · rw [Held.own, Held.own, Query.aliased, hs]
            rfl
      | some s =>
          have hsource := hσ.invariant.grows_source hq hs
          refine ih.grow hσ.invariant ((hsource.setAlias (.given name)).query ?_)
          rw [Query.aliased, hs]
          rfl
  | attach hσ hq kind included relations hrelations ih =>
      obtain ⟨attached, next, hrun, hgrows⟩ :=
        hσ.invariant.grows_attach hq kind included hrelations
      exact ih.draw hσ.invariant (Supply.run_map hrun) hgrows
  | countQuery hσ hq ih =>
      obtain ⟨counting, next, hrun, hgrows⟩ := hσ.invariant.grows_count hq
      exact ih.draw hσ.invariant (Supply.run_map hrun) hgrows
  -- What is left writes a clause, and reads what the query read.
  | select hσ hq _ _ ih => exact ih.grow hσ.invariant (hσ.invariant.grows_again hq rfl rfl)
  | dedup hσ hq ih => exact ih.grow hσ.invariant (hσ.invariant.grows_again hq rfl rfl)
  | restrict hσ hq _ _ ih => exact ih.grow hσ.invariant (hσ.invariant.grows_again hq rfl rfl)
  | group hσ hq _ _ ih => exact ih.grow hσ.invariant (hσ.invariant.grows_again hq rfl rfl)
  | restrictGroups hσ hq _ _ ih =>
      exact ih.grow hσ.invariant (hσ.invariant.grows_again hq rfl rfl)
  | order hσ hq _ _ ih => exact ih.grow hσ.invariant (hσ.invariant.grows_again hq rfl rfl)
  | reverse hσ hq ih => exact ih.grow hσ.invariant (hσ.invariant.grows_again hq rfl rfl)
  | take hσ hq _ _ ih => exact ih.grow hσ.invariant (hσ.invariant.grows_again hq rfl rfl)

/-- No leaf of a reachable query has the id of one of its trees. -/
theorem Reachable.trees_apart (hσ : σ.Reachable) {q : Query} (hq : .query q ∈ σ.held) :
    ∀ id ∈ q.trees, id ∉ q.occurrences.map (·.id) := by
  intro id hid hmem
  obtain ⟨o, ho, heq⟩ := List.mem_map.mp hmem
  refine hσ.apart.apart id ⟨_, hq, ?_⟩ ⟨_, hq, o, ho, heq⟩
  rw [Held.trees_query]
  exact hid

end Growing

end Session

end RelationalQuery
