/-
  RelationalQuery.Proofs.Renaming.Building — building does not depend on ids.

  An operation draws ids one after the other and puts them where new sources stand; ids that it is
  given stay where they are. So from values that are the same under other ids, and from a supply
  that stands elsewhere, an operation gives the same under other ids, as long as what one supply
  gives from there on is renamed to what the other does.

  Main definitions:
    * `Renaming.InStep`: what is drawn from two supplies is renamed, one by one.
    * `Supply.Same`: two computations that draw ids do the same.

  Main statements:
    * `Source.fork_renamed`, `Query.attach_renamed`, `Query.countQuery_renamed`, and one for each
      other operation.
-/

import RelationalQuery.Proofs.Renaming.Rows
import RelationalQuery.Select.Count

namespace RelationalQuery

variable {ρ : Renaming}

/-! ## Values that may be missing -/

section Options

variable {α α' β β' : Type} {R : α → α' → Prop} {S : β → β' → Prop} {a : Option α} {a' : Option α'}

/-- Lists that agree one by one agree at every place. -/
theorem rel_getElem? {as : List α} {as' : List α'} (h : List.Forall₂ R as as') (i : Nat) :
    Option.Rel R as[i]? as'[i]? := by
  induction h generalizing i with
  | nil => exact .none
  | cons hfirst _ ih =>
      cases i with
      | zero => exact .some hfirst
      | succ i => exact ih i

theorem rel_map {f : α → β} {f' : α' → β'} (h : Option.Rel R a a')
    (hf : ∀ {x x'}, R x x' → S (f x) (f' x')) : Option.Rel S (a.map f) (a'.map f') := by
  cases h with
  | none => exact .none
  | some h => exact .some (hf h)

theorem rel_of_map {f : α → β} {f' : α' → β'} (h : Option.Rel S (a.map f) (a'.map f')) :
    Option.Rel (fun x x' => S (f x) (f' x')) a a' := by
  cases a with
  | none =>
      cases a' with
      | none => exact .none
      | some => cases h
  | some =>
      cases a' with
      | none => cases h
      | some =>
          obtain h | _ := h
          exact .some h

/-- Where the results of a step agree and what is done with them does, so does what comes out. -/
theorem rel_bind {f : α → Option β} {f' : α' → Option β'} (h : Option.Rel R a a')
    (hf : ∀ {x x'}, R x x' → Option.Rel S (f x) (f' x')) :
    Option.Rel S (a.bind f) (a'.bind f') := by
  cases h with
  | none => exact .none
  | some h => exact hf h

/-- A choice between two that agree agrees. -/
theorem rel_or {b : Option α} {b' : Option α'} (h : Option.Rel R a a') (hb : Option.Rel R b b') :
    Option.Rel R (a.or b) (a'.or b') := by
  cases h with
  | none => exact hb
  | some h => exact .some h

theorem rel_getD {d : α} {d' : α'} (h : Option.Rel R a a') (hd : R d d') :
    R (a.getD d) (a'.getD d') := by
  cases h with
  | none => exact hd
  | some h => exact h

theorem rel_toList (h : Option.Rel R a a') : List.Forall₂ R a.toList a'.toList := by
  cases h with
  | none => exact .nil
  | some h => exact .cons h .nil

end Options

/-! ## Drawing ids -/

/-- Whatever is drawn from `n` on is renamed to what is drawn from `n'` on. -/
def Renaming.InStep (ρ : Renaming) (n n' : Nat) : Prop := ∀ i, ρ.renames ⟨n + i⟩ ⟨n' + i⟩

/-- Supplies in step stay so when both pass over as many ids. -/
theorem Renaming.InStep.skip {n n' : Nat} (h : ρ.InStep n n') (count : Nat) :
    ρ.InStep (n + count) (n' + count) := by
  intro i
  rw [Nat.add_assoc, Nat.add_assoc]
  exact h (count + i)

/-- From supplies in step the results are the same, and the supplies are in step again. -/
def Supply.Same (ρ : Renaming) {α β : Type} (same : α → β → Prop) (x : Supply α)
    (x' : Supply β) : Prop :=
  ∀ n n', ρ.InStep n n' → same (x.run n).1 (x'.run n').1 ∧ ρ.InStep (x.run n).2 (x'.run n').2

namespace Supply.Same

variable {α α' β β' : Type} {same : α → α' → Prop} {same' : β → β' → Prop}

/-- A result that is the same is so without drawing ids. -/
theorem pure {a : α} {a' : α'} (h : same a a') :
    Supply.Same ρ same (Pure.pure a) (Pure.pure a') := fun _ _ hstep => ⟨h, hstep⟩

/-- Steps that do the same do so in a row. -/
theorem bind {x : Supply α} {x' : Supply α'} {k : α → Supply β} {k' : α' → Supply β'}
    (h : Supply.Same ρ same x x')
    (hk : ∀ {a a'}, same a a' → Supply.Same ρ same' (k a) (k' a')) :
    Supply.Same ρ same' (x >>= k) (x' >>= k') := by
  intro n n' hstep
  obtain ⟨hresult, hnext⟩ := h n n' hstep
  exact hk hresult _ _ hnext

/-- What is done alike with results that are the same gives the same. -/
theorem map {f : α → β} {f' : α' → β'} {x : Supply α} {x' : Supply α'}
    (h : Supply.Same ρ same x x') (hf : ∀ {a a'}, same a a' → same' (f a) (f' a')) :
    Supply.Same ρ same' (f <$> x) (f' <$> x') := by
  intro n n' hstep
  obtain ⟨hresult, hnext⟩ := h n n' hstep
  exact ⟨hf hresult, hnext⟩

/-- A new id is renamed to a new id. -/
theorem fresh : Supply.Same ρ ρ.renames SourceId.fresh SourceId.fresh :=
  fun _ _ hstep => ⟨hstep 0, hstep.skip 1⟩

end Supply.Same

/-! ## Sources -/

namespace Source

/-- A new table source is the same but for the id that is drawn. -/
theorem ofTable_renamed (table : String) :
    Supply.Same ρ (Source.Renamed ρ) (ofTable table) (ofTable table) :=
  .bind .fresh fun h => .pure (.table h table none)

/-- So is a new source around a query. -/
theorem ofQuery_renamed {q q' : Query} (h : q.Renamed ρ q') (label : Option Alias) :
    Supply.Same ρ (Source.Renamed ρ) (ofQuery q label) (ofQuery q' label) :=
  .bind .fresh fun hid => .pure (.subquery hid h label)

/-- An alias is given to the root, whatever the ids are. -/
theorem setAlias_renamed (label : Alias) : {s s' : Source} → s.Renamed ρ s' →
    (s.setAlias label).Renamed ρ (s'.setAlias label)
  | .table _ name _, _, h => by
      cases h with
      | table h => exact .table h name (some label)
  | .subquery .., _, h => by
      cases h with
      | subquery h hq => exact .subquery h hq (some label)
  | .joinTree .., _, h => by
      cases h with
      | joinTree h hleft hjoins => exact .joinTree h (setAlias_renamed label hleft) hjoins

/-- Joins are added behind those of a source, with one id drawn for the tree if there is none yet.
-/
theorem attach_renamed {s s' : Source} (h : s.Renamed ρ s') {more more' : List Join}
    (hmore : List.Forall₂ (Join.Renamed ρ) more more') :
    Supply.Same ρ (Source.Renamed ρ) (s.attach more) (s'.attach more') := by
  cases h with
  | table h name label =>
      exact .bind .fresh fun hid => .pure (.joinTree hid (.table h name label) hmore)
  | subquery h hq label =>
      exact .bind .fresh fun hid => .pure (.joinTree hid (.subquery h hq label) hmore)
  | joinTree h hleft hjoins => exact .pure (.joinTree h hleft (List.rel_append hjoins hmore))

end Source

/-! ## Forks -/

mutual

/-- **A fork is the same but for the ids that are drawn**: by induction over the source. -/
theorem Source.fork_renamed : (s : Source) → ∀ {s' : Source}, s.Renamed ρ s' →
    Supply.Same ρ (Source.Renamed ρ) s.fork s'.fork
  | .table .., _, .table _ name label => .bind .fresh fun hid => .pure (.table hid name label)
  | .subquery .., _, .subquery _ hq label => .bind .fresh fun hid => .pure (.subquery hid hq label)
  | .joinTree _ left joins, _, .joinTree _ hleft hjoins =>
      .bind .fresh fun hid => .bind (left.fork_renamed hleft) fun hleft =>
        .bind (Join.forkAll_renamed joins hjoins) fun hjoins => .pure (.joinTree hid hleft hjoins)
termination_by structural s => s

/-- So is the fork of a relation. -/
theorem Relation.fork_renamed : (r : Relation) → ∀ {r' : Relation}, r.Renamed ρ r' →
    Supply.Same ρ (Relation.Renamed ρ) r.fork r'.fork
  | ⟨_, target, _, _, _, joins⟩, _, .mk name htarget mapping hcondition hselection hjoins =>
      .bind (target.fork_renamed htarget) fun htarget =>
        .bind (Join.forkAll_renamed joins hjoins) fun hjoins =>
          .pure (.mk name htarget mapping hcondition hselection hjoins)
termination_by structural r => r

/-- So are the forks of joins. -/
theorem Join.forkAll_renamed : (joins : List Join) → ∀ {joins' : List Join},
    List.Forall₂ (Join.Renamed ρ) joins joins' →
      Supply.Same ρ (List.Forall₂ (Join.Renamed ρ)) (Join.forkAll joins) (Join.forkAll joins')
  | [], _, .nil => .pure .nil
  | ⟨_, _, relation⟩ :: rest, _, .cons (.mk included kind h) hrest =>
      .bind (relation.fork_renamed h) fun h =>
        .bind (Join.forkAll_renamed rest hrest) fun hrest =>
          .pure (.cons (.mk included kind h) hrest)
termination_by structural joins => joins

end

/-- Relations become joins of the given kind, each with a fork as its target. -/
theorem Join.ofRelations_renamed (kind : JoinKind) (included : Bool) {rs rs' : List Relation}
    (h : List.Forall₂ (Relation.Renamed ρ) rs rs') :
    Supply.Same ρ (List.Forall₂ (Join.Renamed ρ)) (Join.ofRelations kind included rs)
      (Join.ofRelations kind included rs') := by
  induction h with
  | nil => exact .pure .nil
  | cons hr _ ih =>
      exact .bind (Relation.fork_renamed _ hr) fun hr =>
        .bind ih fun hrest => .pure (.cons (.mk included kind hr) hrest)

/-! ## Expressions -/

namespace Expr

/-- A conjunction has the same terms, and anything else is its own. -/
theorem conjuncts_renamed {e e' : Expr} (h : e.Renamed ρ e') :
    List.Forall₂ (Expr.Renamed ρ) e.conjuncts e'.conjuncts := by
  have hself : List.Forall₂ (Expr.Renamed ρ) [e] [e'] := .cons h .nil
  cases h with
  | and hes => exact hes
  | _ => exact hself

/-- The conjunction of conditions that are the same is so. -/
theorem all_renamed {es es' : List Expr} (h : List.Forall₂ (Expr.Renamed ρ) es es') :
    (Expr.all es).Renamed ρ (Expr.all es') := by
  have hterms : List.Forall₂ (Expr.Renamed ρ) (es.flatMap conjuncts) (es'.flatMap conjuncts) :=
    List.rel_flatMap h fun _ _ => conjuncts_renamed
  unfold Expr.all
  generalize es.flatMap conjuncts = terms, es'.flatMap conjuncts = terms' at hterms
  cases hterms with
  | nil => exact .and .nil
  | cons hfirst hrest =>
      cases hrest with
      | nil => exact hfirst
      | cons hsecond hrest => exact .and (.cons hfirst (.cons hsecond hrest))

end Expr

/-- Conditions that are the same for sources that are the same. -/
def Condition.Renamed (ρ : Renaming) (c c' : SourceId → SourceId → Expr) : Prop :=
  ∀ left left' right right', ρ.renames left left' → ρ.renames right right' →
    (c left right).Renamed ρ (c' left' right')

/-- Selections that are the same for sources that are the same. -/
def Selection.Renamed (ρ : Renaming) (c c' : SourceId → List ResultColumn) : Prop :=
  ∀ right right', ρ.renames right right' →
    List.Forall₂ (ResultColumn.Renamed ρ) (c right) (c' right')

/-! ## Relations -/

namespace Relation

/-- A relation to all columns of its target is the same if its condition is. -/
theorem unconditional_renamed (name : String) {target target' : Source}
    (h : target.Renamed ρ target') (mapping : List (String × String))
    {condition condition' : SourceId → SourceId → List Expr}
    (hcondition : ∀ left left' right right', ρ.renames left left' → ρ.renames right right' →
      List.Forall₂ (Expr.Renamed ρ) (condition left right) (condition' left' right')) :
    Relation.Renamed ρ { unconditional name target with mapping, condition }
      { unconditional name target' with mapping, condition := condition' } :=
  .mk name h mapping hcondition (fun _ _ hright => .cons (.star hright) .nil) .nil

/-- The target of a relation to a table is the same but for its id. -/
theorem tableTarget_renamed (name table : String) :
    Supply.Same ρ (Source.Renamed ρ) (tableTarget name table) (tableTarget name table) :=
  .bind (Source.ofTable_renamed table) fun h => .pure (by
    split
    · exact h
    · exact Source.setAlias_renamed _ h)

/-- A relation by columns is the same but for the ids that are drawn. -/
theorem foreignKey_renamed (name table : String) (mapping : List (String × String)) :
    Supply.Same ρ (Relation.Renamed ρ) (foreignKey name table mapping)
      (foreignKey name table mapping) :=
  .bind (tableTarget_renamed name table) fun h => .pure
    (unconditional_renamed name h mapping fun _ _ _ _ _ _ => .nil)

section Conditions

variable {condition condition' : SourceId → SourceId → Expr}
  (hcondition : Condition.Renamed ρ condition condition')
include hcondition

/-- A relation by a condition is so, if the conditions are. -/
theorem toTable_renamed (name table : String) :
    Supply.Same ρ (Relation.Renamed ρ) (toTable name table condition)
      (toTable name table condition') :=
  .bind (tableTarget_renamed name table) fun h => .pure (unconditional_renamed name h []
    fun _ _ _ _ hleft hright => Expr.conjuncts_renamed (hcondition _ _ _ _ hleft hright))

/-- So is a relation to a query. -/
theorem toQuery_renamed (name : String) {q q' : Query} (hq : q.Renamed ρ q') :
    Supply.Same ρ (Relation.Renamed ρ) (toQuery name q condition) (toQuery name q' condition') :=
  .bind (Source.ofQuery_renamed hq _) fun h => .pure (unconditional_renamed name h []
    fun _ _ _ _ hleft hright => Expr.conjuncts_renamed (hcondition _ _ _ _ hleft hright))

/-- A condition more is added to the others. -/
theorem restrict_renamed {r r' : Relation} (h : r.Renamed ρ r') :
    (r.restrict condition).Renamed ρ (r'.restrict condition') := by
  obtain ⟨name, htarget, mapping, hown, hselection, hjoins⟩ := h
  exact .mk name htarget mapping (fun _ _ _ _ hleft hright =>
    List.rel_append (hown _ _ _ _ hleft hright)
      (Expr.conjuncts_renamed (hcondition _ _ _ _ hleft hright))) hselection hjoins

end Conditions

variable {r r' : Relation} (h : r.Renamed ρ r')
include h

theorem Renamed.target : r.target.Renamed ρ r'.target := by
  cases h
  assumption

theorem Renamed.joins : List.Forall₂ (Join.Renamed ρ) r.joins r'.joins := by
  cases h
  assumption

/-- The alias is given to a fork of the relation. -/
theorem aliased_renamed (name : String) :
    Supply.Same ρ (Relation.Renamed ρ) (r.aliased name) (r'.aliased name) :=
  .bind (fork_renamed r h) fun h => .pure (by
    obtain ⟨own, htarget, mapping, hcondition, hselection, hjoins⟩ := h
    exact .mk own (Source.setAlias_renamed _ htarget) mapping hcondition hselection hjoins)

theorem select_renamed {selection selection' : SourceId → List ResultColumn}
    (hselection : Selection.Renamed ρ selection selection') :
    (r.select selection).Renamed ρ (r'.select selection') := by
  obtain ⟨name, htarget, mapping, hcondition, _, hjoins⟩ := h
  exact .mk name htarget mapping hcondition hselection hjoins

/-- Forks of more relations are joined to the target, behind those that are there. -/
theorem attach_renamed (kind : JoinKind) (included : Bool) {rs rs' : List Relation}
    (hrs : List.Forall₂ (Relation.Renamed ρ) rs rs') :
    Supply.Same ρ (Relation.Renamed ρ) (r.attach kind included rs) (r'.attach kind included rs') :=
  .bind (Join.ofRelations_renamed kind included hrs) fun hmore => .pure (by
    obtain ⟨name, htarget, mapping, hcondition, hselection, hjoins⟩ := h
    exact .mk name htarget mapping hcondition hselection (List.rel_append hjoins hmore))

end Relation

/-! ## Queries -/

namespace Query

theorem Renamed.source {q q' : Query} (h : q.Renamed ρ q') :
    Option.Rel (Source.Renamed ρ) q.source q'.source := by
  cases h
  assumption

theorem Renamed.distinct {q q' : Query} (h : q.Renamed ρ q') : q.distinct = q'.distinct := by
  cases h
  rfl

theorem empty_renamed : Query.empty.Renamed ρ Query.empty :=
  .mk .nil false .none .none .nil .none .nil false none

/-- A query of a source asks for nothing more than the source. -/
theorem ofSource_renamed {s s' : Source} (h : s.Renamed ρ s') :
    (ofSource s).Renamed ρ (ofSource s') :=
  .mk (.cons (.star h.root.id) .nil) false (.some h) .none .nil .none .nil false none

theorem table_renamed (name : String) :
    Supply.Same ρ (Query.Renamed ρ) (table name) (table name) :=
  .bind (Source.ofTable_renamed name) fun h => .pure (ofSource_renamed h)

variable {q q' : Query} (h : q.Renamed ρ q')
include h

/-- A query around another is the same but for the id of the source. -/
theorem ofQuery_renamed (label : Option String) :
    Supply.Same ρ (Query.Renamed ρ) (ofQuery q label) (ofQuery q' label) :=
  .bind (Source.ofQuery_renamed h _) fun hs => .pure (ofSource_renamed hs)

theorem aliased_renamed (name : String) : (q.aliased name).Renamed ρ (q'.aliased name) := by
  obtain ⟨hselection, distinct, hsource, hfilter, hgroupBy, hhaving, horderings, reversed, limit⟩ :=
    h
  refine .mk hselection distinct ?_ hfilter hgroupBy hhaving horderings reversed limit
  cases hsource with
  | none => exact .none
  | some hsource => exact .some (Source.setAlias_renamed _ hsource)

theorem select_renamed {selection selection' : List ResultColumn}
    (hselection : List.Forall₂ (ResultColumn.Renamed ρ) selection selection') :
    (q.select selection).Renamed ρ (q'.select selection') := by
  obtain ⟨_, distinct, hsource, hfilter, hgroupBy, hhaving, horderings, reversed, limit⟩ := h
  exact .mk hselection distinct hsource hfilter hgroupBy hhaving horderings reversed limit

theorem dedup_renamed : q.dedup.Renamed ρ q'.dedup := by
  obtain ⟨hselection, _, hsource, hfilter, hgroupBy, hhaving, horderings, reversed, limit⟩ := h
  exact .mk hselection true hsource hfilter hgroupBy hhaving horderings reversed limit

omit h in
/-- A condition is added to an earlier one as the last of its terms. -/
theorem conjoin_renamed {earlier earlier' : Option Expr}
    (h : Option.Rel (Expr.Renamed ρ) earlier earlier') {e e' : Expr} (he : e.Renamed ρ e') :
    Option.Rel (Expr.Renamed ρ) (conjoin earlier e) (conjoin earlier' e') := by
  cases h with
  | none => exact .some he
  | some hearlier => exact .some (Expr.all_renamed (.cons hearlier (.cons he .nil)))

theorem restrict_renamed {e e' : Expr} (he : e.Renamed ρ e') :
    (q.restrict e).Renamed ρ (q'.restrict e') := by
  obtain ⟨hselection, distinct, hsource, hfilter, hgroupBy, hhaving, horderings, reversed, limit⟩ :=
    h
  exact .mk hselection distinct hsource (conjoin_renamed hfilter he) hgroupBy hhaving horderings
    reversed limit

theorem group_renamed {keys keys' : List Expr} (hkeys : List.Forall₂ (Expr.Renamed ρ) keys keys') :
    (q.group keys).Renamed ρ (q'.group keys') := by
  obtain ⟨hselection, distinct, hsource, hfilter, _, hhaving, horderings, reversed, limit⟩ := h
  exact .mk hselection distinct hsource hfilter hkeys hhaving horderings reversed limit

theorem restrictGroups_renamed {e e' : Expr} (he : e.Renamed ρ e') :
    (q.restrictGroups e).Renamed ρ (q'.restrictGroups e') := by
  obtain ⟨hselection, distinct, hsource, hfilter, hgroupBy, hhaving, horderings, reversed, limit⟩ :=
    h
  exact .mk hselection distinct hsource hfilter hgroupBy (conjoin_renamed hhaving he) horderings
    reversed limit

theorem order_renamed {orderings orderings' : List OrderingTerm}
    (horderings : List.Forall₂ (OrderingTerm.Renamed ρ) orderings orderings') :
    (q.order orderings).Renamed ρ (q'.order orderings') := by
  obtain ⟨hselection, distinct, hsource, hfilter, hgroupBy, hhaving, _, _, limit⟩ := h
  exact .mk hselection distinct hsource hfilter hgroupBy hhaving horderings false limit

theorem reverse_renamed : q.reverse.Renamed ρ q'.reverse := by
  obtain ⟨hselection, distinct, hsource, hfilter, hgroupBy, hhaving, horderings, reversed, limit⟩ :=
    h
  exact .mk hselection distinct hsource hfilter hgroupBy hhaving horderings (!reversed) limit

theorem take_renamed (count : Nat) (offset : Option Nat) :
    (q.take count offset).Renamed ρ (q'.take count offset) := by
  obtain ⟨hselection, distinct, hsource, hfilter, hgroupBy, hhaving, horderings, reversed, _⟩ := h
  exact .mk hselection distinct hsource hfilter hgroupBy hhaving horderings reversed _

/-- Relations are attached to the source of a query, and nothing else of it changes. -/
theorem attach_renamed (kind : JoinKind) (included : Bool) {rs rs' : List Relation}
    (hrs : List.Forall₂ (Relation.Renamed ρ) rs rs') :
    Supply.Same ρ (Query.Renamed ρ) (q.attach kind included rs) (q'.attach kind included rs') := by
  obtain ⟨hselection, distinct, hsource, hfilter, hgroupBy, hhaving, horderings, reversed, limit⟩ :=
    h
  cases hsource with
  | none =>
      exact .pure (.mk hselection distinct .none hfilter hgroupBy hhaving horderings reversed limit)
  | some hsource =>
      exact .bind (Join.ofRelations_renamed kind included hrs) fun hmore =>
        .bind (Source.attach_renamed hsource hmore) fun hs => .pure
          (.mk hselection distinct (.some hs) hfilter hgroupBy hhaving horderings reversed limit)

/-! ### References into the query -/

/-- The root of the FROM tree is the same. -/
theorem root?_renamed : Option.Rel ρ.renames q.root? q'.root? := by
  obtain ⟨_, _, hsource, _, _, _, _, _, _⟩ := h
  cases hsource with
  | none => exact .none
  | some hsource => exact .some hsource.root.id

theorem column_renamed (name : String) : (q.column name).Renamed ρ (q'.column name) := by
  have hroot := root?_renamed h
  unfold column
  generalize q.root? = root, q'.root? = root' at hroot
  cases hroot with
  | none => exact .bareColumn name
  | some hid => exact .column hid name

/-! ### Counting -/

/-- The ordering is left out of both. -/
theorem unordered_renamed : q.unordered.Renamed ρ q'.unordered := by
  obtain ⟨hselection, distinct, hsource, hfilter, hgroupBy, hhaving, _, _, limit⟩ := h
  exact .mk hselection distinct hsource hfilter hgroupBy hhaving .nil false limit

/-- Whether a query keeps the rows of its table does not depend on ids. -/
theorem keepsRows_renamed : q.keepsRows = q'.keepsRows := by
  obtain ⟨_, _, _, _, hgroupBy, _, _, _, _⟩ := h
  rw [keepsRows, keepsRows, isEmpty_eq_of_forall₂ hgroupBy]

/-- The table that a query stands on is the same. -/
theorem table?_renamed : Option.Rel ρ.renames q.table? q'.table? := by
  obtain ⟨_, _, hsource, _, _, _, _, _, _⟩ := h
  cases hsource with
  | none => exact .none
  | some hsource =>
      cases hsource with
      | table h => exact .some h
      | subquery => exact .none
      | joinTree => exact .none

section InPlace

variable {id id' : SourceId} (hid : ρ.renames id id')
include hid

omit h in
theorem countRows_renamed :
    List.Forall₂ (ResultColumn.Renamed ρ) (countRows id) (countRows id') :=
  .cons (.expr (.count (.star hid))) .nil

/-- Counting in place puts the count in place of the select list. -/
theorem countInPlace_renamed : (q.countInPlace id).Renamed ρ (q'.countInPlace id') := by
  obtain ⟨_, _, hsource, hfilter, hgroupBy, hhaving, horderings, reversed, limit⟩ := h
  exact .mk (countRows_renamed hid) false hsource hfilter hgroupBy hhaving horderings reversed limit

omit hid in
theorem countDistinctInPlace_renamed {e e' : Expr} (he : e.Renamed ρ e') :
    (q.countDistinctInPlace e).Renamed ρ (q'.countDistinctInPlace e') := by
  obtain ⟨_, _, hsource, hfilter, hgroupBy, hhaving, horderings, reversed, limit⟩ := h
  exact .mk (.cons (.expr (.countDistinct he)) .nil) false hsource hfilter hgroupBy hhaving
    horderings reversed limit

/-- An expression is counted where the query counts distinct values, and rows otherwise. -/
theorem countValues_renamed {e e' : Expr} (he : e.Renamed ρ e') : Option.Rel (Query.Renamed ρ)
    (some (if q.distinct then q.countDistinctInPlace e else q.countInPlace id))
    (some (if q'.distinct then q'.countDistinctInPlace e' else q'.countInPlace id')) := by
  rw [h.distinct]
  refine .some ?_
  split
  · exact countDistinctInPlace_renamed h he
  · exact countInPlace_renamed h hid

/-- Queries that are the same are counted in place both or not at all. -/
theorem countInPlace?_renamed :
    Option.Rel (Query.Renamed ρ) (q.countInPlace? id) (q'.countInPlace? id') := by
  have hplace := countInPlace_renamed h hid
  have hselection := h.selection
  unfold countInPlace?
  rw [h.distinct]
  generalize q.selection = selection, q'.selection = selection' at hselection
  cases hselection with
  | nil => exact .none
  | cons hfirst hrest =>
      cases hrest with
      | cons =>
          have hseveral : Option.Rel (Query.Renamed ρ)
              (if q'.distinct then none else some (q.countInPlace id))
              (if q'.distinct then none else some (q'.countInPlace id')) := by
            split
            · exact .none
            · exact .some hplace
          cases hfirst <;> exact hseveral
      | nil =>
          cases hfirst with
          | star hstar =>
              -- A renaming tells ids apart, so the star is that of the table on both sides or on
              -- neither.
              simp only [Renaming.eq_iff hstar hid]
              split
              · exact .some hplace
              · exact .none
          | expr he => exact h.distinct ▸ countValues_renamed h hid he
          | aliased he => exact h.distinct ▸ countValues_renamed h hid he

end InPlace

/-- Counting from outside draws one id for the source around the query. -/
theorem countFromOutside_renamed :
    Supply.Same ρ (Query.Renamed ρ) q.countFromOutside q'.countFromOutside :=
  .bind (Source.ofQuery_renamed h none) fun hs => .pure
    (.mk (countRows_renamed hs.id) false (.some hs) .none .nil .none .nil false none)

/-- Queries that are the same have counting queries that are the same. -/
theorem countQuery_renamed : Supply.Same ρ (Query.Renamed ρ) q.countQuery q'.countQuery := by
  have hplain := unordered_renamed h
  have htable := table?_renamed hplain
  have houtside := countFromOutside_renamed hplain
  simp only [countQuery, keepsRows_renamed hplain]
  cases q'.unordered.keepsRows with
  | false => exact houtside
  | true =>
      simp only [if_true]
      generalize q.unordered.table? = table, q'.unordered.table? = table' at htable
      cases htable with
      | none => exact houtside
      | some hid =>
          -- Both are counted in place, or neither is.
          have hinPlace := countInPlace?_renamed hplain hid
          simp only [Option.bind_some]
          generalize q.unordered.countInPlace? _ = counting,
            q'.unordered.countInPlace? _ = counting' at hinPlace
          cases hinPlace with
          | none => exact houtside
          | some hcounting => exact .pure hcounting

end Query

end RelationalQuery
