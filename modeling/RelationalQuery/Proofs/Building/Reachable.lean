/-
  RelationalQuery.Proofs.Building.Reachable — every reachable session keeps the invariant.

  The induction over a run takes one case for each operation: what the operation adds is admitted.
  A caller's conditions are called in sessions of their own, for which the induction holds too.

  Main statements:
    * `Session.Reachable.invariant`: every reachable session keeps the invariant.
    * `Session.Reachable.sound`: every held query is sound.
-/

import RelationalQuery.Proofs.Building.Clauses
import RelationalQuery.Schema

namespace RelationalQuery

namespace Session

variable {σ : Session}

/-! ## Runs -/

/-- Nothing is held at the start, so there is nothing to keep. -/
theorem Invariant.start : Invariant ⟨0, []⟩ where
  below _ hv := absurd hv List.not_mem_nil
  pinned_below _ hv := absurd hv List.not_mem_nil
  formed _ hv := absurd hv List.not_mem_nil
  coherent _ hv := absurd hv List.not_mem_nil

/-- Ids that are drawn elsewhere change nothing that is held. -/
theorem Invariant.elsewhere (h : σ.Invariant) {next : Nat} (hnext : σ.next ≤ next) :
    Invariant ⟨next, σ.held⟩ where
  below v hv o ho := Nat.lt_of_lt_of_le (h.below v hv o ho) hnext
  pinned_below v hv id hid := Nat.lt_of_lt_of_le (h.pinned_below v hv id hid) hnext
  formed := h.formed
  coherent := h.coherent

/-- Drawing what is admitted keeps the invariant. -/
theorem Invariant.draw (h : σ.Invariant) {op : Supply Held} {v : Held} {next : Nat}
    (hrun : op.run σ.next = (v, next)) (ha : σ.Admits next v) : (σ.draw op).Invariant := by
  rw [Session.draw, hrun]
  exact h.add ha

/-- The target of a relation to a table is a new one. -/
theorem tableTarget_run (σ : Session) (name table : String) :
    ∃ target, (Relation.tableTarget name table).run σ.next = (target, σ.next + 1) ∧
      σ.NewTarget target := by
  refine ⟨_, rfl, ?_⟩
  split
  · exact newTarget_table σ table none
  · exact newTarget_table σ table (some (.derived name))

/-- What a caller's condition nests is sound. -/
theorem Reachable.sound_condition {condition : SourceId → SourceId → Expr}
    {called : SourceId → SourceId → Session} (hinvariant : ∀ l r, (called l r).Invariant)
    (hknown : ∀ l r, (called l r).Knows (condition l r).subqueries) :
    ∀ left right, ∀ p ∈ ((condition left right).conjuncts).flatMap Expr.subqueries, p.Sound := by
  intro left right p hp
  rw [Expr.subqueries_conjuncts] at hp
  exact (hinvariant left right).sound (hknown left right p hp)

/-- The queries that a caller uses are sound, since they are held. -/
theorem Invariant.sound_known (h : σ.Invariant) {queries : List Query} (hknown : σ.Knows queries) :
    ∀ p ∈ queries, p.Sound := fun p hp => h.sound (hknown p hp)

/-- **Every reachable session keeps the invariant.** -/
theorem Reachable.invariant (hσ : σ.Reachable) : σ.Invariant := by
  induction hσ with
  | start => exact .start
  | elsewhere _ hnext ih => exact ih.elsewhere hnext
  | tableSource _ name ih =>
      exact ih.draw (Supply.run_map rfl) (ih.admits_table name none)
  | querySource _ hq name ih =>
      exact ih.draw (Supply.run_map rfl) ((ih.usable hq).admits_subquery _)
  | nameSource _ hs label ih => exact ih.add ((ih.again hs).setAlias ih label)
  | forkSource _ hs ih =>
      obtain ⟨forked, next, hrun, ha⟩ := ih.admits_fork hs
      exact ih.draw (Supply.run_map hrun) ha
  | sourceOf _ hq hs ih => exact ih.add (ih.admits_sourceOf hq hs)
  | baseOf _ hs ih => exact ih.add (ih.admits_baseOf hs)
  | queryOf _ hs ih => exact ih.add (ih.admits_queryOf hs)
  | targetOf _ hr ih => exact ih.add (ih.admits_targetOf hr)
  | relationOf _ hs hj ih => exact ih.add (ih.admits_relationOf hs hj)
  | relationBelow _ hr hj ih => exact ih.add (ih.admits_relationBelow hr hj)
  | @foreignKey σ _ name table mapping ih =>
      obtain ⟨target, htarget, hnew⟩ := tableTarget_run σ name table
      refine ih.draw (Supply.run_map (Supply.run_bind htarget)) (hnew.admits ih rfl ?_ ?_)
      · intro left right p hp
        cases hp
      · intro right p hp
        cases hp
  -- The sessions in which a caller's functions are called have induction hypotheses of their own.
  | @toTable σ _ name table condition called _ hknown ih hcalled =>
      obtain ⟨target, htarget, hnew⟩ := tableTarget_run σ name table
      refine ih.draw (Supply.run_map (Supply.run_bind htarget)) (hnew.admits ih rfl ?_ ?_)
      · exact Reachable.sound_condition hcalled hknown
      · intro right p hp
        cases hp
  | @toQuery σ _ name q hq condition called _ hknown ih hcalled =>
      have hnew := (ih.usable hq).newTarget (.derived name)
      refine ih.draw (Supply.run_map (Supply.run_bind rfl)) (hnew.admits ih rfl ?_ ?_)
      · exact Reachable.sound_condition hcalled hknown
      · intro right p hp
        cases hp
  | forkRelation _ hr ih =>
      obtain ⟨forked, next, hrun, ha⟩ := ih.admits_forkRelation hr
      exact ih.draw (Supply.run_map hrun) ha
  | aliasRelation _ hr name ih =>
      obtain ⟨forked, next, hrun, ha⟩ := ih.admits_forkRelation hr
      exact ih.draw (Supply.run_map (Supply.run_bind hrun)) (ha.aliasTarget ih (.given name))
  | restrictRelation _ hr condition called _ hknown ih hcalled =>
      exact ih.add (ih.admits_restrictRelation hr (Reachable.sound_condition hcalled hknown))
  | selectRelation _ hr selection called _ hknown ih hcalled =>
      exact ih.add (ih.admits_selectRelation hr fun right =>
        (hcalled right).sound_known (hknown right))
  | attachRelation _ hr kind included relations hrelations ih =>
      obtain ⟨attached, next, hrun, ha⟩ := ih.admits_attachRelation hr kind included hrelations
      exact ih.draw (Supply.run_map hrun) ha
  | emptyQuery _ ih => exact ih.add ih.admits_empty
  | ofSource _ hs ih => exact ih.add (ih.again hs).ofSource
  | table _ name ih =>
      exact ih.draw (Supply.run_map rfl) (ih.admits_table name none).ofSource
  | ofQuery _ hq name ih =>
      exact ih.draw (Supply.run_map rfl) ((ih.usable hq).admits_subquery _).ofSource
  | aliased _ hq name ih => exact ih.add (ih.admits_aliased hq name)
  | select _ hq selection hknown ih => exact ih.add (ih.admits_select hq (ih.sound_known hknown))
  | dedup _ hq ih => exact ih.add (ih.admits_clause hq rfl fun p hp => Or.inl hp)
  | restrict _ hq condition hknown ih =>
      exact ih.add (ih.admits_restrict hq (ih.sound_known hknown))
  | group _ hq keys hknown ih => exact ih.add (ih.admits_group hq (ih.sound_known hknown))
  | restrictGroups _ hq condition hknown ih =>
      exact ih.add (ih.admits_restrictGroups hq (ih.sound_known hknown))
  | order _ hq orderings hknown ih => exact ih.add (ih.admits_order hq (ih.sound_known hknown))
  | reverse _ hq ih => exact ih.add (ih.admits_clause hq rfl fun p hp => Or.inl hp)
  | take _ hq count offset ih => exact ih.add (ih.admits_clause hq rfl fun p hp => Or.inl hp)
  | attach _ hq kind included relations hrelations ih =>
      obtain ⟨attached, next, hrun, ha⟩ := ih.admits_attach hq kind included hrelations
      exact ih.draw (Supply.run_map hrun) ha
  | countQuery _ hq ih =>
      obtain ⟨counting, next, hrun, ha⟩ := ih.admits_count hq
      exact ih.draw (Supply.run_map hrun) ha

/-- **Every query that building gives is sound.** -/
theorem Reachable.sound (hσ : σ.Reachable) {q : Query} (hq : .query q ∈ σ.held) : q.Sound :=
  hσ.invariant.sound hq

end Session

/-! ## A run

People with their leaders twice over, of those whose leader is a person: attached relations and a
correlated subquery, in few steps. -/

/-- People, and their leaders twice. -/
def leaders : Supply Query := do
  let people ← Query.table "persons"
  let leader ← Relation.foreignKey "leader" "persons" [("leader_id", "id")]
  people.includeOptional [leader, leader]

/-- Those whose leader is a person. -/
def led (q : Query) : Supply Query := do
  let leader ← Query.table "persons"
  return q.restrict
    (.exists (leader.restrict (.equal (leader.column "id") (q.column "leader_id"))))

def ledPeople : Query := ((leaders >>= led).run 0).1

/-- The query is built by operations. -/
theorem reachable_ledPeople :
    ∃ σ : Session, σ.Reachable ∧ .query ledPeople ∈ σ.held := by
  -- People, with one relation attached twice.
  have hpeople := Session.Reachable.start.table "persons"
  have hrelation := hpeople.foreignKey "leader" "persons" [("leader_id", "id")]
  have hleaders := hrelation.attach (List.mem_cons_of_mem _ (List.mem_cons_self ..)) .left true
    [_, _] (List.forall_mem_cons.mpr
      ⟨List.mem_cons_self .., List.forall_mem_singleton.mpr (List.mem_cons_self ..)⟩)
  -- People once more, for the subquery in the condition.
  have hleader := hleaders.table "persons"
  have hinner := hleader.restrict (List.mem_cons_self ..)
    (.equal (.column (some ⟨5⟩) "id") (.column (some ⟨0⟩) "leader_id")) fun p hp => by cases hp
  have hled := hinner.restrict
    (List.mem_cons_of_mem _ (List.mem_cons_of_mem _ (List.mem_cons_self ..))) (.exists _)
    (List.forall_mem_singleton.mpr (List.mem_cons_self ..))
  exact ⟨_, hled, List.mem_cons_self ..⟩

/-- A schema with people. -/
def people : Schema := Schema.empty.declare "persons" ["id", "name", "leader_id"]

end RelationalQuery
