/-
  RelationalQuery.Proofs.Building.Steps — what operations on a query leave as it is.

  An operation gives a query with one clause more, replaced or extended. Two of them reach the FROM
  tree: one names its base, the other joins more relations behind those that are there, and makes a
  tree of a leaf first. So whatever is done to a query, its base stays where it is and reads what it
  read, under another name at most; and its joins stay in front of all that come later.

  Main definitions:
    * `Query.Becomes`, `Query.LeadsTo`: one operation, and several in a row.
    * `Source.Extends`: what operations do to a FROM tree.
    * `Join.preorder`: the relations of joins, each before those below it.
    * `Query.Handle`: a reference into a query.

  Main statements:
    * `Query.LeadsTo.extends`: the FROM tree after operations.
    * `Query.relation?_eq`: the relation of a logical name is the first in preorder.
    * `Source.Extends.root?_eq`, `Source.Extends.relation?_eq`: references stay what they are.
-/

import Mathlib.Logic.Relation
import RelationalQuery.Proofs.Building.Parts

namespace RelationalQuery

/-! ## Operations -/

/-- One operation on a query. The conditions that it adds are such as `condition` says; the ids that
attaching draws come from anywhere. -/
inductive Query.Becomes (condition : Expr → Prop) : Query → Query → Prop
  | aliased (q : Query) (name : String) : Becomes condition q (q.aliased name)
  | select (q : Query) (selection : List ResultColumn) : Becomes condition q (q.select selection)
  | dedup (q : Query) : Becomes condition q q.dedup
  | restrict (q : Query) {e : Expr} (he : condition e) : Becomes condition q (q.restrict e)
  | group (q : Query) (keys : List Expr) : Becomes condition q (q.group keys)
  | restrictGroups (q : Query) {e : Expr} (he : condition e) :
      Becomes condition q (q.restrictGroups e)
  | order (q : Query) (orderings : List OrderingTerm) : Becomes condition q (q.order orderings)
  | reverse (q : Query) : Becomes condition q q.reverse
  | take (q : Query) (count : Nat) (offset : Option Nat) : Becomes condition q (q.take count offset)
  | attach (q : Query) (kind : JoinKind) (included : Bool) (relations : List Relation)
      (next : Nat) : Becomes condition q ((q.attach kind included relations).run next).1

/-- Operations in a row. -/
def Query.LeadsTo (condition : Expr → Prop) : Query → Query → Prop :=
  Relation.ReflTransGen (Query.Becomes condition)

/-! ## FROM trees -/

namespace Source

/-- The same FROM tree, its base under another name at most, and with more joined behind. -/
structure Extends (s s' : Source) : Prop where
  base : s'.base = s.base ∨ ∃ label, s'.base = s.base.setAlias label
  joins : ∃ more, s'.joins = s.joins ++ more

/-- The later of two aliases counts. -/
theorem setAlias_setAlias (first second : Alias) : (s : Source) →
    (s.setAlias first).setAlias second = s.setAlias second
  | .table _ _ _ => rfl
  | .subquery _ _ _ => rfl
  | .joinTree id left joins =>
      congrArg (Source.joinTree id · joins) (setAlias_setAlias first second left)

theorem base_setAlias (s : Source) (label : Alias) :
    (s.setAlias label).base = s.base.setAlias label := by
  cases s <;> rfl

theorem joins_setAlias (s : Source) (label : Alias) : (s.setAlias label).joins = s.joins := by
  cases s <;> rfl

/-- An alias of a tree is one of its root. -/
theorem root_setAlias (label : Alias) : (s : Source) →
    (s.setAlias label).root = s.root.setAlias label
  | .table _ _ _ => rfl
  | .subquery _ _ _ => rfl
  | .joinTree _ left _ => root_setAlias label left

theorem root_base (s : Source) : s.base.root = s.root := by
  cases s <;> rfl

theorem Extends.refl (s : Source) : s.Extends s := ⟨Or.inl rfl, [], (List.append_nil _).symm⟩

theorem Extends.trans {s s' s'' : Source} (h : s.Extends s') (k : s'.Extends s'') :
    s.Extends s'' := by
  refine ⟨?_, ?_⟩
  · rcases k.base with hlast | ⟨label, hlast⟩
    · rw [hlast]
      exact h.base
    · -- Of two names in a row the later one counts.
      refine Or.inr ⟨label, ?_⟩
      rcases h.base with hfirst | ⟨other, hfirst⟩
      · rw [hlast, hfirst]
      · rw [hlast, hfirst, setAlias_setAlias]
  · obtain ⟨more, hmore⟩ := h.joins
    obtain ⟨further, hfurther⟩ := k.joins
    exact ⟨more ++ further, by rw [hfurther, hmore, List.append_assoc]⟩

theorem extends_setAlias (s : Source) (label : Alias) : s.Extends (s.setAlias label) :=
  ⟨Or.inr ⟨label, base_setAlias s label⟩, [], by rw [joins_setAlias, List.append_nil]⟩

/-- Joining more extends a source. -/
theorem extends_attach (s : Source) (more : List Join) (next : Nat) :
    s.Extends ((s.attach more).run next).1 := by
  refine ⟨Or.inl ?_, more, ?_⟩ <;> cases s <;> rfl

end Source

/-- Joining to a query extends its source and leaves everything else. -/
theorem Query.source_attach (q : Query) {s : Source} (hs : q.source = some s) (kind : JoinKind)
    (included : Bool) (relations : List Relation) (next : Nat) : ∃ joins fresh,
      ((q.attach kind included relations).run next).1 =
        { q with source := some ((s.attach joins).run fresh).1 } := by
  rw [Query.attach, hs]
  exact ⟨_, _, rfl⟩

/-- One operation extends the FROM tree. -/
theorem Query.Becomes.extends {condition : Expr → Prop} {q q' : Query} (h : q.Becomes condition q')
    {s : Source} (hs : q.source = some s) : ∃ s', q'.source = some s' ∧ s.Extends s' := by
  cases h with
  | aliased name =>
      exact ⟨s.setAlias (.given name), congrArg (Option.map (Source.setAlias _)) hs,
        s.extends_setAlias _⟩
  | attach kind included relations next =>
      obtain ⟨joins, fresh, hattached⟩ := q.source_attach hs kind included relations next
      rw [hattached]
      exact ⟨_, rfl, s.extends_attach joins fresh⟩
  | select | dedup | restrict | group | restrictGroups | order | reverse | take =>
      exact ⟨s, hs, .refl s⟩

/-- **Operations extend the FROM tree** and do nothing else to it. -/
theorem Query.LeadsTo.extends {condition : Expr → Prop} {q q' : Query}
    (h : q.LeadsTo condition q') {s : Source} (hs : q.source = some s) :
    ∃ s', q'.source = some s' ∧ s.Extends s' := by
  -- On the last operation: what came before it has extended the tree already.
  induction h with
  | refl => exact ⟨s, hs, .refl s⟩
  | tail _ hstep ih =>
      obtain ⟨s', hs', hextends⟩ := ih
      obtain ⟨s'', hs'', hfurther⟩ := hstep.extends hs'
      exact ⟨s'', hs'', hextends.trans hfurther⟩

/-! ## Relations in preorder -/

mutual

/-- A relation and those below it. -/
def Relation.preorder : Relation → List Relation
  | ⟨name, target, mapping, condition, selection, joins⟩ =>
    ⟨name, target, mapping, condition, selection, joins⟩ :: Join.preorder joins

/-- The relations of joins, each before those below it, and these before the next. -/
def Join.preorder : List Join → List Relation
  | [] => []
  | ⟨_, _, relation⟩ :: rest => relation.preorder ++ Join.preorder rest

end

namespace Join

/-- The relations of joins in two rows, one row behind the other. -/
theorem preorder_append : (a b : List Join) →
    Join.preorder (a ++ b) = Join.preorder a ++ Join.preorder b
  | [], _ => rfl
  | ⟨_, _, _⟩ :: rest, b => by
      rw [List.cons_append, Join.preorder, Join.preorder, preorder_append rest b,
        List.append_assoc]

/-- The targets are those of the relations, in the same order. -/
theorem targets_eq_preorder : (joins : List Join) →
    Join.targets joins = (Join.preorder joins).map (·.target)
  | [] => rfl
  | ⟨_, _, ⟨_, _, _, _, _, joins⟩⟩ :: rest => by
      rw [Join.targets, Relation.targets, Join.preorder, Relation.preorder,
        targets_eq_preorder joins, targets_eq_preorder rest, List.map_append, List.map_cons]

/-- Looking for a relation depth first is looking for the first one in preorder. -/
theorem findRelation?_eq (name : String) : (joins : List Join) →
    Join.findRelation? name joins = (Join.preorder joins).find? (·.name = name)
  | [] => by rw [Join.findRelation?]; rfl
  | ⟨_, _, ⟨own, _, _, _, _, joins⟩⟩ :: rest => by
      rw [Join.findRelation?, Join.preorder, Relation.preorder, List.find?_append,
        List.find?_cons, findRelation?_eq name joins, findRelation?_eq name rest]
      by_cases hown : own = name <;> simp [hown]

end Join

/-- **The relation of a logical name is the first one in preorder that has it.** -/
theorem Query.relation?_eq (q : Query) (name : String) : q.relation? name =
    (q.source.bind fun s => (Join.preorder s.joins).find? (·.name = name)).map (·.target.id) := by
  rw [Query.relation?]
  cases q.source with
  | none => rfl
  | some s =>
      show (Join.findRelation? name s.joins).bind (fun r => some r.target.id) = _
      rw [Join.findRelation?_eq, Option.bind_some, Option.map_eq_bind]
      rfl

/-! ## References into a query -/

/-- An id that a query gives out: that of its root, or of a relation's target. -/
def Query.Handle (q : Query) (r : SourceId) : Prop :=
  q.root? = some r ∨ ∃ name, q.relation? name = some r

section Handles

variable {q q' : Query} {s s' : Source} {r : SourceId}

/-- A query that gives out a reference has a source. -/
theorem Query.Handle.exists_source (h : q.Handle r) : ∃ s, q.source = some s := by
  cases hs : q.source with
  | some s => exact ⟨s, rfl⟩
  | none =>
      rcases h with hroot | ⟨name, hname⟩
      · rw [Query.root?, hs] at hroot
        cases hroot
      · rw [Query.relation?, hs] at hname
        cases hname

/-- The root keeps its id while a source is extended. -/
theorem Source.Extends.root_id (h : s.Extends s') : s'.root.id = s.root.id := by
  rw [← s'.root_base, ← s.root_base]
  rcases h.base with hbase | ⟨label, hbase⟩
  · rw [hbase]
  · rw [hbase, Source.root_setAlias]
    cases s.base.root <;> rfl

/-- The root of a query stays what it is while its source is extended. -/
theorem Source.Extends.root?_eq (h : s.Extends s') (hs : q.source = some s)
    (hs' : q'.source = some s') : q'.root? = q.root? := by
  rw [Query.root?, Query.root?, hs, hs', Option.map_some, Option.map_some, h.root_id]

/-- A relation stays the first of its name. -/
theorem Source.Extends.relation?_eq (h : s.Extends s') (hs : q.source = some s)
    (hs' : q'.source = some s') {name : String} (hname : q.relation? name = some r) :
    q'.relation? name = some r := by
  -- What was joined later comes later in preorder.
  obtain ⟨more, hmore⟩ := h.joins
  rw [Query.relation?_eq, hs, Option.bind_some] at hname
  obtain ⟨relation, hrelation, hid⟩ := Option.map_eq_some_iff.mp hname
  rw [Query.relation?_eq, hs', Option.bind_some, hmore, Join.preorder_append, List.find?_append,
    hrelation, Option.some_or, Option.map_some, hid]

/-- A reference into a query is to a leaf of its FROM tree: to the base, or to a target. -/
theorem Query.Handle.mem_leaves (h : q.Handle r) (hs : q.source = some s) (hbase : s.base.IsLeaf) :
    (q.root? = some r ∧ s.base.id = r) ∨ ∃ t ∈ s.targets, t.id = r := by
  rcases h with hroot | ⟨name, hname⟩
  · have hid : s.root.id = r := by
      rw [Query.root?, hs, Option.map_some] at hroot
      exact Option.some.inj hroot
    rw [Source.root_eq_base hbase] at hid
    exact Or.inl ⟨hroot, hid⟩
  · rw [Query.relation?_eq, hs, Option.bind_some] at hname
    obtain ⟨relation, hrelation, hid⟩ := Option.map_eq_some_iff.mp hname
    refine Or.inr ⟨relation.target, ?_, hid⟩
    rw [Source.targets, Join.targets_eq_preorder]
    exact List.mem_map_of_mem (List.mem_of_find?_eq_some hrelation)

/-- Targets stay targets while a source is extended. -/
theorem Source.Extends.targets_subset (h : s.Extends s') : s.targets ⊆ s'.targets := by
  obtain ⟨more, hmore⟩ := h.joins
  rw [Source.targets, Source.targets, hmore, Join.targets_append]
  exact List.subset_append_left _ _

end Handles

end RelationalQuery
