/-
  RelationalQuery.Proofs.Building.Operations — operations on sources and relations are admitted.

  One statement for each kind of operation: new leaves, other names, forks, refinements, and
  relations attached to relations. Forks and attached relations draw an id for every target, so
  their leaves are new ones with a name; the fork of a source also draws one for its base.

  Main statements:
    * `Session.Invariant.admits_table`, `Session.Usable.admits_subquery`: new leaves.
    * `Session.Admits.setAlias`, `Session.Invariant.admits_fork`: sources.
    * `Session.NewTarget.admits`, `Session.Invariant.admits_attachRelation`: relations.
-/

import RelationalQuery.Proofs.Building.Invariant

namespace RelationalQuery

/-! ## Other names -/

namespace Source

theorem isLeaf_setAlias {s : Source} (label : Alias) (h : s.IsLeaf) :
    (s.setAlias label).IsLeaf := by
  match s, h with
  | .table .., _ => trivial
  | .subquery .., _ => trivial

/-- A leaf that is given an alias has it for its name. -/
theorem name?_setAlias {s : Source} (label : Alias) (h : s.IsLeaf) :
    (s.setAlias label).name? = some label.name := by
  match s, h with
  | .table .., _ => rfl
  | .subquery .., _ => rfl

theorem id_setAlias (s : Source) (label : Alias) : (s.setAlias label).id = s.id := by
  cases s <;> rfl

/-- An alias does not change what is pinned. -/
theorem pinned_setAlias : (s : Source) → (label : Alias) → (s.setAlias label).pinned = s.pinned
  | .table .., _ => rfl
  | .subquery .., _ => rfl
  | .joinTree _ left joins, label => by
      rw [setAlias, Source.pinned, Source.pinned, pinned_setAlias left label]

/-- An alias does not change what stands inside. -/
theorem nests_setAlias {p : Query} : (s : Source) → (label : Alias) →
    ((s.setAlias label).Nests p ↔ s.Nests p)
  | .table .., _ => Iff.rfl
  | .subquery .., _ => Iff.rfl
  | .joinTree _ left joins, label => by
      rw [setAlias, Source.Nests, Source.Nests, nests_setAlias left label]

/-- An alias is given to the base, and the targets stay. -/
theorem leaves_setAlias {s : Source} (label : Alias) :
    (s.setAlias label).leaves = s.base.setAlias label :: s.targets := by
  match s with
  | .table .. => rfl
  | .subquery .. => rfl
  | .joinTree .. => rfl

/-- Naming a leaf changes its own name alone. -/
theorem mem_occurrences_setAlias {s : Source} {label : Alias} (h : s.IsLeaf) {o : Occurrence}
    (ho : o ∈ (s.setAlias label).occurrences) :
    o ∈ s.occurrences ∨ (o.id = s.id ∧ o.name.isSome) := by
  match s, h with
  | .table id name old, _ =>
      rw [setAlias, occurrences, List.mem_singleton] at ho
      subst ho
      exact Or.inr ⟨rfl, rfl⟩
  | .subquery id query old, _ =>
      rw [setAlias, occurrences, List.mem_cons] at ho
      rcases ho with rfl | hinner
      · exact Or.inr ⟨rfl, rfl⟩
      · rw [occurrences]
        exact Or.inl (List.mem_cons_of_mem _ hinner)

/-- Joining more relations adds their targets at the end. -/
theorem attach_run {s : Source} (more : List Join) (n : Nat) :
    ∃ attached next, (s.attach more).run n = (attached, next) ∧ n ≤ next ∧
      attached.leaves = s.leaves ++ Join.targets more ∧
      ∀ p, attached.Nests p → s.Nests p ∨ Join.Nests p more := by
  match s with
  | .table id name label =>
      exact ⟨.joinTree ⟨n⟩ (.table id name label) more, n + 1, rfl, Nat.le_succ n, rfl,
        fun p hp => hp⟩
  | .subquery id query label =>
      exact ⟨.joinTree ⟨n⟩ (.subquery id query label) more, n + 1, rfl, Nat.le_succ n, rfl,
        fun p hp => hp⟩
  | .joinTree id left joins =>
      refine ⟨.joinTree id left (joins ++ more), n, rfl, Nat.le_refl n, ?_, ?_⟩
      · rw [leaves, targets, Source.joins, Join.targets_append]
        rfl
      · intro p hp
        rw [Source.Nests, Join.nests_append, ← or_assoc] at hp
        exact hp

end Source

/-- Relations that are attached to a query are joined to its source, each target under an id of its
own. -/
theorem Query.attach_run {q : Query} {s : Source} (hs : q.source = some s) (kind : JoinKind)
    (included : Bool) (rs : List Relation) (n : Nat)
    (h : ∀ r ∈ rs, ∀ t ∈ r.targets, t.IsLeaf) :
    ∃ joins attached next, (q.attach kind included rs).run n =
        ({ q with source := some attached }, next) ∧
      (s.attach joins).run (n + (rs.flatMap Relation.targets).length) = (attached, next) ∧
      n + (rs.flatMap Relation.targets).length ≤ next ∧
      attached.leaves = s.leaves ++ Source.renumbered n (rs.flatMap Relation.targets) ∧
      ∀ p, attached.Nests p → s.Nests p ∨ ∃ r ∈ rs, r.Nests p := by
  obtain ⟨joins, hrun, htargets, hnests⟩ := Join.ofRelations_run kind included rs n h
  obtain ⟨attached, next, hattach, hnext, hleaves, hinside⟩ :=
    Source.attach_run (s := s) joins (n + (rs.flatMap Relation.targets).length)
  refine ⟨joins, attached, next, ?_, hattach, hnext, htargets ▸ hleaves,
    fun p hp => (hinside p hp).imp_right (hnests p)⟩
  rw [Query.attach, hs]
  rw [Supply.run_bind hrun, Supply.run_bind hattach]
  rfl

namespace Session

variable {σ : Session}

/-- Leaves that are renamed only are admitted if they were admitted before. -/
theorem Admits.renamed (h : σ.Invariant) {next : Nat} {v v' : Held} (ha : σ.Admits next v)
    (hformed : v'.Formed) (hpinned : v'.pinned = v.pinned)
    (horigin : ∀ o ∈ v'.occurrences, o ∈ v.occurrences ∨
      ∃ old ∈ v.occurrences, o.id = old.id ∧ o.name.isSome) : σ.Admits next v' := by
  refine ⟨ha.next_le, hformed, ?_, ?_⟩
  · intro o ho
    rcases horigin o ho with hold | ⟨old, hold, hid, hnamed⟩
    · exact ha.origin o hold
    · -- A renamed leaf has a name, whether or not the old one had.
      left
      refine ⟨?_, Or.inl hnamed⟩
      rw [hid]
      rcases ha.origin old hold with ⟨hbelow, _⟩ | hknown
      · exact hbelow
      · exact Nat.lt_of_lt_of_le (h.known_below hknown) ha.next_le
  · rw [hpinned]
    intro id hid
    refine (ha.pins id hid).imp (fun hnew => ⟨hnew.1, hnew.2.1, ?_⟩) (fun hpins => hpins)
    intro o ho heq
    rcases horigin o ho with hold | ⟨_, _, _, hnamed⟩
    · exact hnew.2.2 o hold heq
    · exact hnamed

/-! ## Sources -/

/-- A held value is admitted once more. -/
theorem Invariant.again (h : σ.Invariant) {v : Held} (hv : v ∈ σ.held) : σ.Admits σ.next v :=
  .of_known h (h.formed v hv) (fun _ ho => ⟨v, hv, ho⟩) fun _ hid => ⟨v, hv, hid⟩

/-- A leaf on its own has its shape. -/
theorem formed_of_isLeaf {s : Source} (h : s.IsLeaf) : s.Formed := by
  refine ⟨Source.isLeaf_of_mem_leaves h, ?_, ?_⟩
  · rw [Source.targets_of_isLeaf h]
    intro t ht
    cases ht
  · rw [Source.leaves_of_isLeaf h]
    exact List.nodup_cons.mpr ⟨List.not_mem_nil, List.nodup_nil⟩

/-- A new table is admitted. -/
theorem Invariant.admits_table (h : σ.Invariant) (name : String) (label : Option Alias) :
    σ.Admits (σ.next + 1) (.source (.table ⟨σ.next⟩ name label)) := by
  refine .of_named h (Nat.le_succ _) ⟨formed_of_isLeaf trivial, fun p hp => hp.elim⟩ ?_ ?_
  · intro o ho
    rw [Held.occurrences, Source.occurrences, List.mem_singleton] at ho
    subst ho
    exact Or.inl ⟨Nat.lt_succ_self _, rfl⟩
  · intro id hid
    rw [Held.pinned, Source.pinned, List.mem_singleton] at hid
    subst hid
    exact Or.inl ⟨Nat.le_refl _, Nat.lt_succ_self _⟩

/-- What a query must be to stand in parentheses. -/
structure Usable (σ : Session) (q : Query) : Prop where
  sound : q.Sound
  known : ∀ o ∈ q.occurrences, σ.Known o
  pins : ∀ id ∈ q.pinned, σ.Pins id

/-- A held query can be used as a subquery. -/
theorem Invariant.usable (h : σ.Invariant) {q : Query} (hq : .query q ∈ σ.held) : σ.Usable q :=
  ⟨h.sound hq, fun _ ho => ⟨_, hq, ho⟩, fun _ hid => ⟨_, hq, hid⟩⟩

/-- A query that can be used is admitted as a new source. -/
theorem Usable.admits_subquery {q : Query} (hq : σ.Usable q) (label : Option Alias) :
    σ.Admits (σ.next + 1) (.source (.subquery ⟨σ.next⟩ q label)) := by
  refine ⟨Nat.le_succ _, ⟨formed_of_isLeaf trivial, ?_⟩, ?_, fun id hid => Or.inr (hq.pins id hid)⟩
  · intro p hp
    rw [Source.Nests] at hp
    rw [hp]
    exact hq.sound
  · intro o ho
    rw [Held.occurrences, Source.occurrences, List.mem_cons] at ho
    rcases ho with rfl | hinner
    · exact Or.inl ⟨Nat.lt_succ_self _, Or.inr (Nat.le_refl _)⟩
    · exact Or.inr (hq.known o hinner)

/-- A tree keeps its shape under another alias. -/
theorem Formed.setAlias {s : Source} (h : s.Formed) (label : Alias) :
    (s.setAlias label).Formed := by
  obtain ⟨hbase, htargets⟩ := List.forall_mem_cons.mp h.leaf
  have hleaves := Source.leaves_setAlias (s := s) label
  refine ⟨?_, ?_, ?_⟩
  · rw [hleaves]
    exact List.forall_mem_cons.mpr ⟨Source.isLeaf_setAlias label hbase, htargets⟩
  · intro t ht
    rw [(List.cons.inj hleaves).2] at ht
    exact h.named t ht
  · rw [hleaves, List.map_cons, Source.id_setAlias]
    exact h.distinct

/-- A source that is admitted is admitted under another alias. -/
theorem Admits.setAlias (h : σ.Invariant) {next : Nat} {s : Source}
    (ha : σ.Admits next (.source s)) (label : Alias) :
    σ.Admits next (.source (s.setAlias label)) := by
  obtain ⟨hformed, hsound⟩ := ha.formed
  have hbase : s.base.IsLeaf := hformed.leaf _ (List.mem_cons_self ..)
  refine ha.renamed h ⟨Formed.setAlias hformed label, ?_⟩ (Source.pinned_setAlias s label) ?_
  · intro p hp
    exact hsound p ((Source.nests_setAlias s label).mp hp)
  · intro o ho
    rw [Held.occurrences, Source.occurrences_eq, Source.leaves_setAlias, List.flatMap_cons,
      List.mem_append] at ho
    rw [Held.occurrences, Source.occurrences_eq, Source.leaves, List.flatMap_cons]
    rcases ho with hown | hrest
    · rcases Source.mem_occurrences_setAlias hbase hown with hold | ⟨hid, hnamed⟩
      · exact Or.inl (List.mem_append_left _ hold)
      · exact Or.inr ⟨s.base.occurrence,
          List.mem_append_left _ (Source.occurrence_mem hbase), hid, hnamed⟩
    · exact Or.inl (List.mem_append_right _ hrest)

/-- Ids in a row are distinct. -/
theorem nodup_ids_renumbered (ts : List Source) (n : Nat) :
    ((Source.renumbered n ts).map Source.id).Nodup := by
  rw [Source.ids_renumbered]
  refine List.pairwise_map.mpr ((List.nodup_range' 1 : (List.range' n ts.length).Nodup).imp ?_)
  intro i j hne heq
  exact hne (congrArg SourceId.index heq)

section Forked

variable {s forked : Source} {start : Nat}

/-- The leaves of a fork: a base under the first new id, and the targets under those after it. -/
theorem base_of_renumbered (hleaves : forked.leaves = Source.renumbered start s.leaves) :
    forked.base = s.base.withId ⟨start⟩ ∧
      forked.targets = Source.renumbered (start + 1) s.targets := by
  rw [Source.leaves, Source.leaves, Source.renumbered] at hleaves
  exact List.cons.inj hleaves

/-- A fork has the shape of what it is a fork of. -/
theorem formed_forked (h : s.Formed)
    (hleaves : forked.leaves = Source.renumbered start s.leaves) : forked.Formed := by
  refine ⟨?_, ?_, ?_⟩
  · rw [hleaves]
    intro u hu
    obtain ⟨t, ht, k, _, _, rfl⟩ := Source.mem_renumbered _ _ u hu
    exact Source.isLeaf_withId (h.leaf t ht)
  · rw [(base_of_renumbered hleaves).2]
    intro u hu
    obtain ⟨t, ht, k, _, _, rfl⟩ := Source.mem_renumbered _ _ u hu
    rw [Source.name?_withId]
    exact h.named t ht
  · rw [hleaves]
    exact nodup_ids_renumbered _ _

/-- Where the occurrences of a fork come from. The targets of joins are new leaves with a name. The
base is drawn like them, but it may have none. -/
theorem origin_forked (hs : s.Formed) (hcovers : ∀ t ∈ s.leaves, σ.Covers t)
    (hleaves : forked.leaves = Source.renumbered start s.leaves) {o : Occurrence}
    (ho : o ∈ forked.occurrences) : o = (s.base.withId ⟨start⟩).occurrence ∨
      ((start < o.id.index ∧ o.id.index < start + s.leaves.length) ∧ o.name.isSome) ∨
        σ.Known o := by
  obtain ⟨hbase, htargets⟩ := List.forall_mem_cons.mp hs.leaf
  obtain ⟨hcoversBase, hcoversTargets⟩ := List.forall_mem_cons.mp hcovers
  obtain ⟨hforkedBase, hforkedTargets⟩ := base_of_renumbered hleaves
  rw [Source.occurrences_eq, Source.leaves, hforkedBase, hforkedTargets, List.flatMap_cons,
    List.mem_append] at ho
  -- The base has the first id that is drawn, and the targets have those behind it.
  rcases ho with hown | hrest
  · rcases Source.mem_occurrences_withId hbase hown with heq | hold
    · exact Or.inl heq
    · exact Or.inr (Or.inr (hcoversBase.known o hold))
  · right
    have horigin := renumbered_origin (start + 1) (fun t ht =>
      ⟨⟨htargets t ht, hs.named t ht⟩, hcoversTargets t ht⟩) o hrest
    rcases horigin with ⟨⟨hlow, hhigh⟩, hnamed⟩ | hknown
    · rw [Source.leaves, List.length_cons]
      exact Or.inl ⟨⟨hlow, by omega⟩, hnamed⟩
    · exact Or.inr hknown

/-- Where the ids come from that a fork pins. -/
theorem pins_forked (hs : s.Formed) (hcovers : ∀ t ∈ s.leaves, σ.Covers t)
    (hleaves : forked.leaves = Source.renumbered start s.leaves) {id : SourceId}
    (hid : id ∈ forked.pinned) : (id = ⟨start⟩ ∧ s.base.name?.isSome) ∨
      (start < id.index ∧ id.index < start + s.leaves.length) ∨ σ.Pins id := by
  obtain ⟨hbase, htargets⟩ := List.forall_mem_cons.mp hs.leaf
  obtain ⟨hcoversBase, hcoversTargets⟩ := List.forall_mem_cons.mp hcovers
  obtain ⟨hforkedBase, hforkedTargets⟩ := base_of_renumbered hleaves
  rw [Source.pinned_eq, hforkedBase, hforkedTargets, List.mem_append] at hid
  -- As for the occurrences: the base comes first, and the targets are named.
  rcases hid with hown | hrest
  · rcases Source.mem_pinned_withId hbase hown with hnew | hold
    · exact Or.inl hnew
    · exact Or.inr (Or.inr (hcoversBase.pins id hold))
  · right
    have hpins := renumbered_pins (start + 1) (fun t ht =>
      ⟨⟨htargets t ht, hs.named t ht⟩, hcoversTargets t ht⟩) id hrest
    rcases hpins with ⟨hlow, hhigh⟩ | hold
    · rw [Source.leaves, List.length_cons]
      exact Or.inl ⟨hlow, by omega⟩
    · exact Or.inr hold

/-- What is known was drawn before. -/
theorem Invariant.index_lt_of_known (h : σ.Invariant) (hstart : σ.next ≤ start) {o : Occurrence}
    (ho : σ.Known o) : o.id.index < start :=
  Nat.lt_of_lt_of_le (h.known_below ho) hstart

end Forked

/-- The fork of a held source is admitted. -/
theorem Invariant.admits_fork (h : σ.Invariant) {s : Source} (hs : .source s ∈ σ.held) :
    ∃ forked next, s.fork.run σ.next = (forked, next) ∧ σ.Admits next (.source forked) := by
  obtain ⟨hformed, hsound⟩ := h.formed _ hs
  have hcovers : ∀ t ∈ s.leaves, σ.Covers t := fun t ht => (covers_source hs).leaf ht
  obtain ⟨forked, start, hrun, hstart, hleaves, hnests⟩ := Source.fork_run s σ.next hformed.leaf
  have hlength : s.leaves.length = s.targets.length + 1 := rfl
  have hbaseId : (s.base.withId ⟨start⟩).occurrence.id.index = start := by
    rw [Source.id_occurrence, Source.id_withId]
  refine ⟨forked, _, hrun, by omega,
    ⟨formed_forked hformed hleaves, fun p hp => hsound p (hnests p hp)⟩, ?_, ?_⟩
  · intro o ho
    rcases origin_forked hformed hcovers hleaves ho with rfl | ⟨⟨_, hhigh⟩, hnamed⟩ | hknown
    · exact Or.inl ⟨by omega, Or.inr (by omega)⟩
    · exact Or.inl ⟨hhigh, Or.inl hnamed⟩
    · exact Or.inr hknown
  · intro id hid
    -- A new id is carried by one leaf of the fork alone, so it is that leaf that has the name.
    rcases pins_forked hformed hcovers hleaves hid with ⟨rfl, hnamed⟩ | ⟨hlow, hhigh⟩ | hold
    · refine Or.inl ⟨hstart, by show start < _; omega, ?_⟩
      intro o ho heq
      rcases origin_forked hformed hcovers hleaves ho with rfl | ⟨_, hnew⟩ | hknown
      · show ((s.base.withId ⟨start⟩).name?).isSome
        rw [Source.name?_withId]
        exact hnamed
      · exact hnew
      · have hbelow := h.index_lt_of_known hstart hknown
        rw [heq] at hbelow
        exact absurd hbelow (Nat.lt_irrefl start)
    · refine Or.inl ⟨by omega, by omega, ?_⟩
      intro o ho heq
      rcases origin_forked hformed hcovers hleaves ho with rfl | ⟨_, hnew⟩ | hknown
      · rw [heq] at hbaseId
        omega
      · exact hnew
      · have hbelow := h.index_lt_of_known hstart hknown
        rw [heq] at hbelow
        omega
    · exact Or.inr hold

/-! ## Relations -/

/-- A new target: a leaf with a name under an id just drawn, around what is known. -/
structure NewTarget (σ : Session) (t : Source) : Prop where
  leaf : t.IsLeaf
  named : t.name?.isSome
  id_eq : t.id = ⟨σ.next⟩
  known : ∀ o ∈ t.occurrences, o = t.occurrence ∨ σ.Known o
  pins : ∀ id ∈ t.pinned, id = t.id ∨ σ.Pins id
  sound : ∀ p, t.Nests p → p.Sound

/-- A new table can be a target, since a table has a name. -/
theorem newTarget_table (σ : Session) (name : String) (label : Option Alias) :
    σ.NewTarget (.table ⟨σ.next⟩ name label) where
  leaf := trivial
  named := rfl
  id_eq := rfl
  known o ho := by
    rw [Source.occurrences, List.mem_singleton] at ho
    exact Or.inl ho
  pins id hid := by
    rw [Source.pinned, List.mem_singleton] at hid
    exact Or.inl hid
  sound p hp := hp.elim

/-- A query that can be used can be a target under an alias. -/
theorem Usable.newTarget {q : Query} (hq : σ.Usable q) (label : Alias) :
    σ.NewTarget (.subquery ⟨σ.next⟩ q (some label)) where
  leaf := trivial
  named := rfl
  id_eq := rfl
  known o ho := by
    rw [Source.occurrences, List.mem_cons] at ho
    exact ho.imp (fun heq => heq) (hq.known o)
  pins id hid := Or.inr (hq.pins id hid)
  sound p hp := by
    rw [Source.Nests] at hp
    rw [hp]
    exact hq.sound

/-- A relation to a new target is admitted. -/
theorem NewTarget.admits (h : σ.Invariant) {r : Relation} (ht : σ.NewTarget r.target)
    (hjoins : r.joins = [])
    (hcondition : ∀ left right, ∀ p ∈ (r.condition left right).flatMap Expr.subqueries, p.Sound)
    (hselection : ∀ right, ∀ p ∈ (r.selection right).flatMap ResultColumn.subqueries, p.Sound) :
    σ.Admits (σ.next + 1) (.relation r) := by
  -- Nothing is joined to the target yet, so that it is the only leaf.
  have htargets : r.targets = [r.target] := by
    rw [Relation.targets_eq, hjoins]
    rfl
  have hindex : r.target.id.index = σ.next := congrArg SourceId.index ht.id_eq
  refine .of_named h (Nat.le_succ _) ⟨?_, ?_⟩ ?_ ?_
  · rw [htargets]
    exact List.forall_mem_singleton.mpr ⟨ht.leaf, ht.named⟩
  · intro p hp
    rcases hp with hp | ⟨left, right, hp⟩ | ⟨right, hp⟩ | hp
    · exact ht.sound p hp
    · exact hcondition left right p hp
    · exact hselection right p hp
    · rw [hjoins] at hp
      exact hp.elim
  · intro o ho
    rw [Held.occurrences, htargets, List.flatMap_singleton] at ho
    refine (ht.known o ho).imp ?_ (fun hknown => hknown)
    intro h
    subst h
    rw [Source.id_occurrence, hindex]
    exact ⟨Nat.lt_succ_self _, ht.named⟩
  · intro id hid
    rw [Held.pinned, htargets, List.flatMap_singleton, List.mem_cons] at hid
    have hown : id = r.target.id ∨ σ.Pins id := hid.elim Or.inl (ht.pins id)
    refine hown.imp ?_ (fun hpins => hpins)
    intro h
    subst h
    omega

/-- A relation with other conditions or another selection is admitted. -/
theorem Invariant.admits_refined (h : σ.Invariant) {r r' : Relation} (hr : .relation r ∈ σ.held)
    (htargets : r'.targets = r.targets)
    (hnests : ∀ p, r'.Nests p → r.Nests p ∨ p.Sound) : σ.Admits σ.next (.relation r') := by
  obtain ⟨hformed, hsound⟩ := h.formed _ hr
  refine .of_known h ⟨htargets ▸ hformed, ?_⟩ ?_ ?_
  · intro p hp
    exact (hnests p hp).elim (hsound p) (fun hp => hp)
  · intro o ho
    rw [Held.occurrences, htargets] at ho
    exact ⟨_, hr, ho⟩
  · intro id hid
    rw [Held.pinned, htargets] at hid
    exact ⟨_, hr, hid⟩

/-- What a held relation offers for a fork. -/
theorem Invariant.forkable (h : σ.Invariant) {r : Relation} (hr : .relation r ∈ σ.held) :
    ∀ t ∈ r.targets, (t.IsLeaf ∧ t.name?.isSome) ∧ σ.Covers t :=
  fun t ht => ⟨(h.formed _ hr).1 t ht, covers_relation hr ht⟩

/-- Numbered targets are leaves with names, as they were before. -/
theorem formed_renumbered {ts : List Source} (n : Nat)
    (hts : ∀ t ∈ ts, (t.IsLeaf ∧ t.name?.isSome) ∧ σ.Covers t) :
    ∀ u ∈ Source.renumbered n ts, u.IsLeaf ∧ u.name?.isSome := by
  intro u hu
  obtain ⟨t, ht, k, _, _, rfl⟩ := Source.mem_renumbered ts n u hu
  rw [Source.name?_withId]
  exact ⟨Source.isLeaf_withId (hts t ht).1.1, (hts t ht).1.2⟩

/-- The fork of a held relation is admitted. -/
theorem Invariant.admits_forkRelation (h : σ.Invariant) {r : Relation}
    (hr : .relation r ∈ σ.held) :
    ∃ forked next, r.fork.run σ.next = (forked, next) ∧ σ.Admits next (.relation forked) := by
  have hts := h.forkable hr
  obtain ⟨forked, hrun, hfork⟩ := Relation.fork_run r σ.next fun t ht => (hts t ht).1.1
  refine ⟨forked, _, hrun, .of_named h (Nat.le_add_right _ _) ⟨?_, ?_⟩ ?_ ?_⟩
  · rw [hfork.targets]
    exact formed_renumbered σ.next hts
  · exact fun p hp => (h.formed _ hr).2 p (hfork.nests p hp)
  · intro o ho
    rw [Held.occurrences, hfork.targets] at ho
    exact (renumbered_origin σ.next hts o ho).imp (fun hnew => ⟨hnew.1.2, hnew.2⟩) fun hold => hold
  · intro id hid
    rw [Held.pinned, hfork.targets] at hid
    exact renumbered_pins σ.next hts id hid

/-- A relation that is admitted is admitted with another alias for its target. -/
theorem Admits.aliasTarget (h : σ.Invariant) {next : Nat} {r : Relation}
    (ha : σ.Admits next (.relation r)) (label : Alias) :
    σ.Admits next (.relation { r with target := r.target.setAlias label }) := by
  obtain ⟨hformed, hsound⟩ := ha.formed
  have htargets := Relation.targets_eq r
  have hrenamed : ({ r with target := r.target.setAlias label } : Relation).targets =
      r.target.setAlias label :: Join.targets r.joins := Relation.targets_eq _
  rw [htargets] at hformed
  obtain ⟨⟨hleaf, _⟩, hjoins⟩ := List.forall_mem_cons.mp hformed
  -- Only the target's label differs, so nothing but its own occurrence is looked at anew.
  refine ha.renamed h ⟨?_, ?_⟩ ?_ ?_
  · rw [hrenamed]
    refine List.forall_mem_cons.mpr ⟨⟨Source.isLeaf_setAlias label hleaf, ?_⟩, hjoins⟩
    rw [Source.name?_setAlias label hleaf]
    rfl
  · intro p hp
    rcases hp with hp | hrest
    · exact hsound p (Or.inl ((Source.nests_setAlias _ label).mp hp))
    · exact hsound p (Or.inr hrest)
  · rw [Held.pinned, Held.pinned, hrenamed, htargets, List.flatMap_cons, List.flatMap_cons,
      Source.id_setAlias, Source.pinned_setAlias]
  · intro o ho
    rw [Held.occurrences, hrenamed, List.flatMap_cons, List.mem_append] at ho
    rw [Held.occurrences, htargets, List.flatMap_cons]
    rcases ho with hown | hrest
    · rcases Source.mem_occurrences_setAlias hleaf hown with hold | ⟨hid, hnamed⟩
      · exact Or.inl (List.mem_append_left _ hold)
      · exact Or.inr ⟨r.target.occurrence,
          List.mem_append_left _ (Source.occurrence_mem hleaf), hid, hnamed⟩
    · exact Or.inl (List.mem_append_right _ hrest)

/-- What held relations offer for being attached. -/
theorem Invariant.attachable (h : σ.Invariant) {rs : List Relation}
    (hrs : ∀ r ∈ rs, .relation r ∈ σ.held) :
    ∀ t ∈ rs.flatMap Relation.targets, (t.IsLeaf ∧ t.name?.isSome) ∧ σ.Covers t := by
  intro t ht
  obtain ⟨r, hr, hmem⟩ := List.mem_flatMap.mp ht
  exact h.forkable (hrs r hr) t hmem

/-- Relations that are held can be joined to a relation that is held, and the result is admitted. -/
theorem Invariant.admits_attachRelation (h : σ.Invariant) {r : Relation}
    (hr : .relation r ∈ σ.held) (kind : JoinKind) (included : Bool) {rs : List Relation}
    (hrs : ∀ other ∈ rs, .relation other ∈ σ.held) :
    ∃ attached next, (r.attach kind included rs).run σ.next = (attached, next) ∧
      σ.Admits next (.relation attached) := by
  have hts := h.attachable hrs
  obtain ⟨joins, hrun, hall, hnests⟩ := r.attach_run kind included rs σ.next
    fun other hother t ht => (h.forkable (hrs other hother) t ht).1.1
  obtain ⟨hformed, hsound⟩ := h.formed _ hr
  refine ⟨{ r with joins := r.joins ++ joins }, _, hrun,
    .of_named h (Nat.le_add_right _ _) ⟨?_, ?_⟩ ?_ ?_⟩
  · rw [hall]
    exact List.forall_mem_append.mpr ⟨hformed, formed_renumbered σ.next hts⟩
  · -- A query stands in the target, the condition, the selection, or in a join: one it had, or a
    -- new one.
    intro p hp
    rcases hp with hp | hp | hp | hp
    · exact hsound p (Or.inl hp)
    · exact hsound p (Or.inr (Or.inl hp))
    · exact hsound p (Or.inr (Or.inr (Or.inl hp)))
    · rcases Join.nests_append.mp hp with hold | hnew
      · exact hsound p (Or.inr (Or.inr (Or.inr hold)))
      · obtain ⟨other, hother, hp⟩ := hnests p hnew
        exact (h.formed _ (hrs other hother)).2 p hp
  · -- What is new has an id that was just drawn; what is not, was held.
    intro o ho
    rw [Held.occurrences, hall, List.flatMap_append, List.mem_append] at ho
    rcases ho with hold | hnew
    · exact Or.inr ⟨_, hr, hold⟩
    · exact (renumbered_origin σ.next hts o hnew).imp (fun hnew => ⟨hnew.1.2, hnew.2⟩)
        fun hold => hold
  · intro id hid
    rw [Held.pinned, hall, List.flatMap_append, List.mem_append] at hid
    rcases hid with hold | hnew
    · exact Or.inr ⟨_, hr, hold⟩
    · exact renumbered_pins σ.next hts id hnew

end Session

end RelationalQuery
