/-
  RelationalQuery.Proofs.Aliasing.Building — building keeps queries alike.

  What is alike is built of what is alike. Two supplies need not be in step: where one side forks a
  relation to name it, the ids that it draws correspond to none, and the ids that both sides draw
  next correspond to each other. A relation and its named copy are interchangeable from there on,
  since nothing but a fork of either is ever attached, and a fork does not depend on the ids that
  it replaces.

  Main definitions:
    * `Supply.Alike`: two computations that draw ids do alike under a correspondence that grows.

  Main statements:
    * `Relation.fork_alike`: forks of copies are alike.
    * `Relation.copies_aliased`: a named relation is a copy of the relation.
    * `Query.attach_alike`, `Query.countQuery_alike`, and one for each other operation.
-/

import RelationalQuery.Proofs.Aliasing.Rows

namespace RelationalQuery

variable {ρ : Renaming}

/-! ## Drawing ids -/

/-- From supplies that have passed all ids that correspond, more ids come to correspond, and the
results are alike under these. -/
def Supply.Alike (ρ : Renaming) {α β : Type} (alike : Renaming → α → β → Prop) (x : Supply α)
    (x' : Supply β) : Prop :=
  ∀ n n', ρ.Below n n' → ∃ ρ' : Renaming, ρ.Within ρ' ∧
    ρ'.Below (x.run n).2 (x'.run n').2 ∧ alike ρ' (x.run n).1 (x'.run n').1

namespace Supply.Alike

variable {α α' β β' : Type} {alike : Renaming → α → α' → Prop} {alike' : Renaming → β → β' → Prop}

/-- Computations that draw nothing are alike if their results are. -/
theorem pure {a : α} {a' : α'} (h : alike ρ a a') :
    Supply.Alike ρ alike (Pure.pure a) (Pure.pure a') :=
  fun _ _ hbelow => ⟨ρ, .refl ρ, hbelow, h⟩

/-- Computations that are alike, one after the other; the second ones start from a greater
correspondence. -/
theorem bind {x : Supply α} {x' : Supply α'} {k : α → Supply β} {k' : α' → Supply β'}
    (h : Supply.Alike ρ alike x x')
    (hk : ∀ {ρ' : Renaming}, ρ.Within ρ' → ∀ {a a'}, alike ρ' a a' →
      Supply.Alike ρ' alike' (k a) (k' a')) :
    Supply.Alike ρ alike' (x >>= k) (x' >>= k') := by
  intro n n' hbelow
  obtain ⟨ρ₁, hρ₁, hbelow₁, hresult⟩ := h n n' hbelow
  obtain ⟨ρ₂, hρ₂, hbelow₂, hresult'⟩ := hk hρ₁ hresult _ _ hbelow₁
  exact ⟨ρ₂, hρ₁.trans hρ₂, hbelow₂, hresult'⟩

/-- Results that are alike are mapped to results that are alike. -/
theorem map {f : α → β} {f' : α' → β'} {x : Supply α} {x' : Supply α'}
    (h : Supply.Alike ρ alike x x')
    (hf : ∀ {ρ' : Renaming} {a a'}, alike ρ' a a' → alike' ρ' (f a) (f' a')) :
    Supply.Alike ρ alike' (f <$> x) (f' <$> x') := by
  intro n n' hbelow
  obtain ⟨ρ', hρ', hbelow', hresult⟩ := h n n' hbelow
  exact ⟨ρ', hρ', hbelow', hf hresult⟩

/-- A new id corresponds to a new id. -/
theorem fresh : Supply.Alike ρ (fun ρ' => ρ'.renames) SourceId.fresh SourceId.fresh :=
  fun _ _ hbelow => ⟨ρ.extend hbelow, ρ.within_extend hbelow, ρ.extend_below hbelow,
    Or.inr ⟨rfl, rfl⟩⟩

end Supply.Alike

/-! ## Sources -/

namespace Source

/-- A table source is the same everywhere, but for the id that it draws. -/
theorem ofTable_alike (table : String) :
    Supply.Alike ρ Source.Alike (ofTable table) (ofTable table) :=
  .bind .fresh fun _ _ _ h => .pure (.table h table none none)

/-- A query source may be labelled in one way or in another. -/
theorem ofQuery_alike {q q' : Query} (h : q.Alike ρ q') (label label' : Option Alias) :
    Supply.Alike ρ Source.Alike (ofQuery q label) (ofQuery q' label') :=
  .bind .fresh fun hρ _ _ hid => .pure (.subquery hid (h.mono hρ) label label')

/-- A label makes no difference. -/
theorem Alike.labelLeft {s s' : Source} (h : s.Alike ρ s') (label : Alias) :
    (s.setAlias label).Alike ρ s' := by
  cases h with
  | table h name _ own => exact .table h name (some label) own
  | subquery h hq _ own => exact .subquery h hq (some label) own
  | joinTree h hleft hjoins => exact .joinTree h (hleft.labelLeft label) hjoins

/-- A label on the right-hand source changes nothing that counts. -/
theorem Alike.labelRight {s s' : Source} (h : s.Alike ρ s') (label : Alias) :
    s.Alike ρ (s'.setAlias label) := by
  cases h with
  | table h name own _ => exact .table h name own (some label)
  | subquery h hq own _ => exact .subquery h hq own (some label)
  | joinTree h hleft hjoins => exact .joinTree h (hleft.labelRight label) hjoins

/-- Trees that are alike have bases that are alike. -/
theorem Alike.base {s s' : Source} (h : s.Alike ρ s') : s.base.Alike ρ s'.base := by
  cases h with
  | table h name label label' => exact .table h name label label'
  | subquery h hq label label' => exact .subquery h hq label label'
  | joinTree _ hleft _ => exact hleft

/-- Joining what is alike to what is alike gives trees that are alike. -/
theorem attach_alike {s s' : Source} (h : s.Alike ρ s') {more more' : List Join}
    (hmore : List.Forall₂ (Join.Alike ρ) more more') :
    Supply.Alike ρ Source.Alike (s.attach more) (s'.attach more') := by
  have hleaf : Supply.Alike ρ Source.Alike (do return .joinTree (← SourceId.fresh) s more)
      (do return .joinTree (← SourceId.fresh) s' more') :=
    .bind .fresh fun hρ _ _ hid => .pure (.joinTree hid (h.mono hρ) (Join.alikeAll_mono hρ hmore))
  cases h with
  | table => exact hleaf
  | subquery => exact hleaf
  | joinTree h hleft hjoins => exact .pure (.joinTree h hleft (List.rel_append hjoins hmore))

/-- Labelling a source and taking its ids away commute. -/
theorem unnumbered_setAlias (s : Source) (label : Alias) :
    (s.setAlias label).unnumbered = s.unnumbered.setAlias label := by
  cases s with
  | table => rfl
  | subquery => rfl
  | joinTree _ left joins =>
      rw [setAlias, unnumbered, unnumbered, setAlias, left.unnumbered_setAlias label]

end Source

/-- Ids are taken away from joins one by one. -/
theorem Join.unnumberedAll_append : (a b : List Join) →
    Join.unnumberedAll (a ++ b) = Join.unnumberedAll a ++ Join.unnumberedAll b
  | [], _ => rfl
  | ⟨_, _, _⟩ :: rest, b => by
      rw [List.cons_append, Join.unnumberedAll, Join.unnumberedAll,
        Join.unnumberedAll_append rest b, List.cons_append]

/-- The relation at some place, without its ids. -/
theorem Join.relation_unnumberedAll : (joins : List Join) → (position : Nat) →
    (Join.unnumberedAll joins)[position]?.map Join.relation =
      (joins[position]?.map Join.relation).map Relation.unnumbered
  | [], _ => rfl
  | ⟨_, _, _⟩ :: _, 0 => rfl
  | ⟨_, _, _⟩ :: rest, position + 1 => Join.relation_unnumberedAll rest position

/-! ## Forks -/

mutual

/-- Forks of sources that are alike are alike. -/
theorem Source.fork_alike : (s : Source) → ∀ {ρ : Renaming} {s' : Source}, s.Alike ρ s' →
    Supply.Alike ρ Source.Alike s.fork s'.fork
  | .table .., _, _, .table _ name label label' =>
      .bind .fresh fun _ _ _ hid => .pure (.table hid name label label')
  | .subquery .., _, _, .subquery _ hq label label' =>
      .bind .fresh fun hρ _ _ hid => .pure (.subquery hid (hq.mono hρ) label label')
  | .joinTree _ left joins, _, _, .joinTree _ hleft hjoins =>
      .bind .fresh fun hρ _ _ hid =>
        .bind (left.fork_alike (hleft.mono hρ)) fun hρ₁ _ _ hleft =>
          .bind (Join.forkAll_alike joins (Join.alikeAll_mono (hρ.trans hρ₁) hjoins))
            fun hρ₂ _ _ hjoins =>
              .pure (.joinTree ((hρ₁.trans hρ₂) _ _ hid) (hleft.mono hρ₂) hjoins)
termination_by structural s => s

/-- Forks of relations that are alike are alike. -/
theorem Relation.fork_alike : (r : Relation) → ∀ {ρ : Renaming} {r' : Relation}, r.Alike ρ r' →
    Supply.Alike ρ Relation.Alike r.fork r'.fork
  | ⟨_, target, _, _, _, joins⟩, _, _,
    .mk name htarget mapping condition condition' hselection hjoins =>
      .bind (target.fork_alike htarget) fun hρ _ _ htarget =>
        .bind (Join.forkAll_alike joins (Join.alikeAll_mono hρ hjoins)) fun hρ₁ _ _ hjoins =>
          .pure (.mk name (htarget.mono hρ₁) mapping condition condition'
            (hselection.mono (hρ.trans hρ₁)) hjoins)
termination_by structural r => r

/-- Forks of joins that are alike, one by one, are alike. -/
theorem Join.forkAll_alike : (joins : List Join) → ∀ {ρ : Renaming} {joins' : List Join},
    List.Forall₂ (Join.Alike ρ) joins joins' →
      Supply.Alike ρ (fun ρ' => List.Forall₂ (Join.Alike ρ')) (Join.forkAll joins)
        (Join.forkAll joins')
  | [], _, _, .nil => .pure .nil
  | ⟨_, _, relation⟩ :: rest, _, _, .cons (.mk included kind h) hrest =>
      .bind (relation.fork_alike h) fun hρ _ _ h =>
        .bind (Join.forkAll_alike rest (Join.alikeAll_mono hρ hrest)) fun hρ₁ _ _ hrest =>
          .pure (.cons (.mk included kind (h.mono hρ₁)) hrest)
termination_by structural joins => joins

end

mutual

/-- A fork does not depend on the ids that it replaces. -/
theorem Source.fork_unnumbered : (s : Source) → s.unnumbered.fork = s.fork
  | .table .. => by rw [Source.unnumbered, Source.fork, Source.fork]
  | .subquery .. => by rw [Source.unnumbered, Source.fork, Source.fork]
  | .joinTree _ left joins => by
      rw [Source.unnumbered, Source.fork, Source.fork, left.fork_unnumbered,
        Join.forkAll_unnumbered joins]

/-- A fork draws all its ids anew, so it does not depend on those of the original. -/
theorem Relation.fork_unnumbered : (r : Relation) → r.unnumbered.fork = r.fork
  | ⟨_, target, _, _, _, joins⟩ => by
      rw [Relation.unnumbered, Relation.fork, Relation.fork, target.fork_unnumbered,
        Join.forkAll_unnumbered joins]

/-- Forks of joins do not depend on the ids of the originals. -/
theorem Join.forkAll_unnumbered : (joins : List Join) →
    Join.forkAll (Join.unnumberedAll joins) = Join.forkAll joins
  | [] => by rw [Join.unnumberedAll]
  | ⟨_, _, relation⟩ :: rest => by
      rw [Join.unnumberedAll, Join.forkAll, Join.forkAll, relation.fork_unnumbered,
        Join.forkAll_unnumbered rest]

end

/-- Relations that differ in their ids only have the same forks. -/
theorem Relation.fork_congr {r t : Relation} (h : t.unnumbered = r.unnumbered) :
    t.fork = r.fork := by
  rw [← t.fork_unnumbered, h, r.fork_unnumbered]

/-- **Forks of copies are alike.** -/
theorem Relation.Copies.fork {r r' : Relation} (h : r.Copies ρ r') :
    Supply.Alike ρ Relation.Alike r.fork r'.fork := by
  obtain ⟨t, t', ht, ht', halike⟩ := h
  rw [← Relation.fork_congr ht, ← Relation.fork_congr ht']
  exact t.fork_alike halike

/-- Forks of copies, joined in one way, are alike. -/
theorem Join.ofRelations_alike (kind : JoinKind) (included : Bool) : {rs rs' : List Relation} →
    {ρ : Renaming} → List.Forall₂ (Relation.Copies ρ) rs rs' →
      Supply.Alike ρ (fun ρ' => List.Forall₂ (Join.Alike ρ')) (Join.ofRelations kind included rs)
        (Join.ofRelations kind included rs')
  | [], _, _, .nil => .pure .nil
  | _ :: _, _, _, .cons hr hrest =>
      .bind hr.fork fun hρ _ _ hr =>
        .bind (Join.ofRelations_alike kind included (hrest.imp fun _ _ h => h.mono hρ))
          fun hρ₁ _ _ hrest => .pure (.cons (.mk included kind (hr.mono hρ₁)) hrest)

/-! ## Relations -/

namespace Relation

/-- Relations that are alike, or at least copies. -/
def AlikeAs (ρ : Renaming) : Bool → Relation → Relation → Prop
  | false => Relation.Alike ρ
  | true => Relation.Copies ρ

/-- Relations that are alike as copies, or as they are, stay so under a greater correspondence. -/
theorem AlikeAs.mono {ρ ρ' : Renaming} (hρ : ρ.Within ρ') {copy : Bool} {r r' : Relation}
    (h : r.AlikeAs ρ copy r') : r.AlikeAs ρ' copy r' := by
  cases copy with
  | false => exact Alike.mono hρ h
  | true => exact Copies.mono hρ h

/-- In either way, the relations are copies of relations that are alike. -/
theorem AlikeAs.copies {copy : Bool} {r r' : Relation} (h : r.AlikeAs ρ copy r') :
    r.Copies ρ r' := by
  cases copy with
  | false => exact Alike.copies h
  | true => exact h

/-- What keeps relations alike and does not look at ids keeps copies. -/
theorem AlikeAs.apply {copy : Bool} {r r' : Relation} (h : r.AlikeAs ρ copy r')
    (f f' g g' : Relation → Relation)
    (halike : ∀ {t t' : Relation}, t.Alike ρ t' → (f t).Alike ρ (f' t'))
    (hf : ∀ t : Relation, (f t).unnumbered = g t.unnumbered)
    (hf' : ∀ t : Relation, (f' t).unnumbered = g' t.unnumbered) :
    (f r).AlikeAs ρ copy (f' r') := by
  cases copy with
  | false => exact halike h
  | true =>
      obtain ⟨t, t', ht, ht', htt'⟩ := h
      exact ⟨f t, f' t', by rw [hf, ht, hf], by rw [hf', ht', hf'], halike htt'⟩

/-- Conditions do not count: relations with any mapping and conditions are alike if their targets
are. -/
theorem unconditional_alike (name : String) {target target' : Source}
    (h : target.Alike ρ target') (mapping : List (String × String))
    (condition condition' : SourceId → SourceId → List Expr) :
    Relation.Alike ρ { unconditional name target with mapping, condition }
      { unconditional name target' with mapping, condition := condition' } :=
  .mk name h mapping condition condition' (fun _ _ _ _ ht => .cons (.star ht) .nil) .nil

/-- The target of a relation to a table is the same everywhere, but for its id. -/
theorem tableTarget_alike (name table : String) :
    Supply.Alike ρ Source.Alike (tableTarget name table) (tableTarget name table) :=
  .bind (Source.ofTable_alike table) fun _ _ _ h => .pure (by
    split
    · exact h
    · exact (h.labelLeft _).labelRight _)

/-- Relations by the same foreign key are alike. -/
theorem foreignKey_alike (name table : String) (mapping : List (String × String)) :
    Supply.Alike ρ Relation.Alike (foreignKey name table mapping) (foreignKey name table mapping) :=
  .bind (tableTarget_alike name table) fun _ _ _ h => .pure (unconditional_alike name h mapping _ _)

/-- Relations to the same table are alike, whatever their conditions. -/
theorem toTable_alike (name table : String) (condition condition' : SourceId → SourceId → Expr) :
    Supply.Alike ρ Relation.Alike (toTable name table condition) (toTable name table condition') :=
  .bind (tableTarget_alike name table) fun _ _ _ h => .pure (unconditional_alike name h [] _ _)

/-- Relations to queries that are alike are alike, whatever their conditions. -/
theorem toQuery_alike (name : String) {q q' : Query} (hq : q.Alike ρ q')
    (condition condition' : SourceId → SourceId → Expr) :
    Supply.Alike ρ Relation.Alike (toQuery name q condition) (toQuery name q' condition') :=
  .bind (Source.ofQuery_alike hq _ _) fun _ _ _ h => .pure (unconditional_alike name h [] _ _)

/-- A condition more does not count. -/
theorem restrict_alike {copy : Bool} {r r' : Relation} (h : r.AlikeAs ρ copy r')
    (condition condition' : SourceId → SourceId → Expr) :
    (r.restrict condition).AlikeAs ρ copy (r'.restrict condition') := by
  refine h.apply (restrict · condition) (restrict · condition') (restrict · condition)
    (restrict · condition') ?_
    (fun ⟨_, _, _, _, _, _⟩ => rfl) (fun ⟨_, _, _, _, _, _⟩ => rfl)
  rintro _ _ ⟨name, htarget, mapping, _, _, hselection, hjoins⟩
  exact .mk name htarget mapping _ _ hselection hjoins

/-- Selections that are alike keep relations alike. -/
theorem select_alike {copy : Bool} {r r' : Relation} (h : r.AlikeAs ρ copy r')
    {selection selection' : SourceId → List ResultColumn}
    (hselection : Selection.Alike ρ selection selection') :
    (r.select selection).AlikeAs ρ copy (r'.select selection') := by
  refine h.apply (select · selection) (select · selection') (select · selection)
    (select · selection') ?_
    (fun ⟨_, _, _, _, _, _⟩ => rfl) (fun ⟨_, _, _, _, _, _⟩ => rfl)
  rintro _ _ ⟨name, htarget, mapping, condition, condition', _, hjoins⟩
  exact .mk name htarget mapping condition condition' hselection hjoins

/-- The relation with more joined to its target. -/
def more (joins : List Join) (r : Relation) : Relation := { r with joins := r.joins ++ joins }

/-- Joining more to a relation and taking its ids away commute. -/
theorem more_unnumbered (joins : List Join) : (r : Relation) →
    (r.more joins).unnumbered = r.unnumbered.more (Join.unnumberedAll joins)
  | ⟨_, _, _, _, _, own⟩ => by
      rw [more, unnumbered, unnumbered, more, Join.unnumberedAll_append]

/-- Joining copies to relations that are alike, in one way, keeps them alike. -/
theorem attach_alike {copy : Bool} {r r' : Relation} (h : r.AlikeAs ρ copy r') (kind : JoinKind)
    (included : Bool) {rs rs' : List Relation} (hrs : List.Forall₂ (Copies ρ) rs rs') :
    Supply.Alike ρ (AlikeAs · copy) (r.attach kind included rs) (r'.attach kind included rs') := by
  refine .bind (Join.ofRelations_alike kind included hrs) fun hρ joins joins' hmore =>
    .pure ((h.mono hρ).apply (more joins) (more joins') _ _ ?_ (more_unnumbered joins)
      (more_unnumbered joins'))
  rintro _ _ ⟨name, htarget, mapping, condition, condition', hselection, hjoins⟩
  exact .mk name htarget mapping condition condition' hselection (List.rel_append hjoins hmore)

/-! ### Names -/

/-- The relation with a name for its target. -/
def label (name : String) (r : Relation) : Relation :=
  { r with target := r.target.setAlias (.given name) }

/-- Labelling the target of a relation and taking its ids away commute. -/
theorem label_unnumbered (name : String) : (r : Relation) →
    (r.label name).unnumbered = r.unnumbered.label name
  | ⟨_, _, _, _, _, _⟩ => by
      rw [label, unnumbered, unnumbered, label, Source.unnumbered_setAlias]

/-- A name for the right-hand target changes nothing that counts. -/
theorem Alike.labelRight {r r' : Relation} (h : r.Alike ρ r') (name : String) :
    r.Alike ρ (r'.label name) := by
  obtain ⟨own, htarget, mapping, condition, condition', hselection, hjoins⟩ := h
  exact .mk own (htarget.labelRight _) mapping condition condition' hselection hjoins

/-- A name for the left-hand target changes nothing that counts. -/
theorem Alike.labelLeft {r r' : Relation} (h : r.Alike ρ r') (name : String) :
    (r.label name).Alike ρ r' := by
  obtain ⟨own, htarget, mapping, condition, condition', hselection, hjoins⟩ := h
  exact .mk own (htarget.labelLeft _) mapping condition condition' hselection hjoins

/-- Copies of relations that are alike, under a new name, are alike. -/
theorem aliased_alike {r r' : Relation} (h : r.Copies ρ r') (name : String) :
    Supply.Alike ρ Relation.Alike (r.aliased name) (r'.aliased name) :=
  .bind h.fork fun _ _ _ h => .pure ((h.labelLeft name).labelRight name)

/-- **A named relation is a copy of the relation.** The ids that are drawn for it correspond to
none. -/
theorem copies_aliased {r r' : Relation} (h : r.Copies ρ r') (name : String) :
    Supply.Alike ρ Copies (pure r) (r'.aliased name) := by
  intro n n' hbelow
  obtain ⟨t, t', ht, ht', halike⟩ := h
  obtain ⟨forked, hrun, _, hrest⟩ := r'.fork_numbered n'
  have haliased : (r'.aliased name).run n' = (forked.label name, n' + r'.inside.ids.length) :=
    Supply.run_bind hrun
  rw [haliased]
  refine ⟨ρ, .refl ρ, hbelow.mono (Nat.le_refl n) (Nat.le_add_right ..), t, t'.label name, ht, ?_,
    halike.labelRight name⟩
  rw [label_unnumbered, ht', ← hrest, label_unnumbered]

/-! ### What is joined to a relation -/

/-- Relations that are alike have joins that are alike, one by one. -/
theorem Alike.joins {r r' : Relation} (h : r.Alike ρ r') :
    List.Forall₂ (Join.Alike ρ) r.joins r'.joins := by
  cases h
  assumption

/-- The relation at some place below a relation, without its ids. -/
theorem below_unnumbered (position : Nat) : (r : Relation) →
    r.unnumbered.joins[position]?.map Join.relation =
      (r.joins[position]?.map Join.relation).map unnumbered
  | ⟨_, _, _, _, _, joins⟩ => Join.relation_unnumberedAll joins position

/-- The relations at one place below relations that are alike are alike in the same way. -/
theorem AlikeAs.below {copy : Bool} {r r' : Relation} (h : r.AlikeAs ρ copy r') (position : Nat) :
    Option.Rel (fun j j' : Join => j.relation.AlikeAs ρ copy j'.relation) r.joins[position]?
      r'.joins[position]? := by
  have halike : ∀ {t t' : Relation}, t.Alike ρ t' → Option.Rel (Relation.Alike ρ)
      (t.joins[position]?.map Join.relation) (t'.joins[position]?.map Join.relation) := by
    intro t t' h
    refine rel_map (rel_getElem? h.joins position) ?_
    rintro _ _ ⟨_, _, hrelation⟩
    exact hrelation
  refine rel_of_map ?_
  cases copy with
  | false => exact halike h
  | true =>
      obtain ⟨t, t', ht, ht', htt'⟩ := h
      have hbelow := halike htt'
      -- A fork has other ids but is one tree up to those, on each side.
      have hleft := below_unnumbered position t
      have hright := below_unnumbered position t'
      rw [ht, below_unnumbered] at hleft
      rw [ht', below_unnumbered] at hright
      generalize t.joins[position]?.map Join.relation = b,
        t'.joins[position]?.map Join.relation = b' at hbelow hleft hright
      cases hbelow with
      | none =>
          rw [Option.map_eq_none_iff.mp hleft, Option.map_eq_none_iff.mp hright]
          exact .none
      | some hb =>
          obtain ⟨c, hc, hcb⟩ := Option.map_eq_some_iff.mp hleft
          obtain ⟨c', hc', hcb'⟩ := Option.map_eq_some_iff.mp hright
          rw [hc, hc']
          exact .some ⟨_, _, hcb.symm, hcb'.symm, hb⟩

end Relation

/-! ## Queries -/

namespace Query

/-- Queries that are alike drop repeated rows both or neither. -/
theorem Alike.distinct {q q' : Query} (h : q.Alike ρ q') : q.distinct = q'.distinct := by
  cases h
  rfl

theorem empty_alike : Query.empty.Alike ρ Query.empty :=
  .mk .nil false .none none none rfl none none [] [] false none

/-- Queries from sources that are alike are alike. -/
theorem ofSource_alike {s s' : Source} (h : s.Alike ρ s') : (ofSource s).Alike ρ (ofSource s') :=
  .mk (.cons (.star h.root.id) .nil) false (.some h) none none rfl none none [] [] false none

/-- Queries from the same table are alike. -/
theorem table_alike (name : String) : Supply.Alike ρ Query.Alike (table name) (table name) :=
  .bind (Source.ofTable_alike name) fun _ _ _ h => .pure (ofSource_alike h)

variable {q q' : Query} (h : q.Alike ρ q')
include h

/-- Queries from queries that are alike are alike, whatever they are called. -/
theorem ofQuery_alike (label label' : Option String) :
    Supply.Alike ρ Query.Alike (ofQuery q label) (ofQuery q' label') :=
  .bind (Source.ofQuery_alike h _ _) fun _ _ _ hs => .pure (ofSource_alike hs)

/-- **A named query is alike.** -/
theorem Alike.aliasedRight (name : String) : q.Alike ρ (q'.aliased name) := by
  obtain ⟨hselection, distinct, hsource, filter, filter', hgroupBy, having, having', orderings,
    orderings', reversed, limit⟩ := h
  refine .mk hselection distinct ?_ filter filter' hgroupBy having having' orderings orderings'
    reversed limit
  cases hsource with
  | none => exact .none
  | some hsource => exact .some (hsource.labelRight _)

/-- A name for the left-hand query changes nothing that counts. -/
theorem Alike.aliasedLeft (name : String) : (q.aliased name).Alike ρ q' := by
  obtain ⟨hselection, distinct, hsource, filter, filter', hgroupBy, having, having', orderings,
    orderings', reversed, limit⟩ := h
  refine .mk hselection distinct ?_ filter filter' hgroupBy having having' orderings orderings'
    reversed limit
  cases hsource with
  | none => exact .none
  | some hsource => exact .some (hsource.labelLeft _)

/-- Selections that are alike keep queries alike. -/
theorem select_alike {selection selection' : List ResultColumn}
    (hselection : Columns.Alike ρ selection selection') :
    (q.select selection).Alike ρ (q'.select selection') := by
  obtain ⟨_, distinct, hsource, filter, filter', hgroupBy, having, having', orderings, orderings',
    reversed, limit⟩ := h
  exact .mk hselection distinct hsource filter filter' hgroupBy having having' orderings orderings'
    reversed limit

theorem dedup_alike : q.dedup.Alike ρ q'.dedup := by
  obtain ⟨hselection, _, hsource, filter, filter', hgroupBy, having, having', orderings, orderings',
    reversed, limit⟩ := h
  exact .mk hselection true hsource filter filter' hgroupBy having having' orderings orderings'
    reversed limit

/-- Conditions and orderings make no difference. -/
theorem restrict_alike (e e' : Expr) : (q.restrict e).Alike ρ (q'.restrict e') := by
  obtain ⟨hselection, distinct, hsource, _, _, hgroupBy, having, having', orderings, orderings',
    reversed, limit⟩ := h
  exact .mk hselection distinct hsource _ _ hgroupBy having having' orderings orderings' reversed
    limit

/-- Grouping does not count, but whether there is any does. -/
theorem group_alike {keys keys' : List Expr} (hkeys : keys.isEmpty = keys'.isEmpty) :
    (q.group keys).Alike ρ (q'.group keys') := by
  obtain ⟨hselection, distinct, hsource, filter, filter', _, having, having', orderings, orderings',
    reversed, limit⟩ := h
  exact .mk hselection distinct hsource filter filter' hkeys having having' orderings orderings'
    reversed limit

/-- A condition on groups does not count. -/
theorem restrictGroups_alike (e e' : Expr) :
    (q.restrictGroups e).Alike ρ (q'.restrictGroups e') := by
  obtain ⟨hselection, distinct, hsource, filter, filter', hgroupBy, _, _, orderings, orderings',
    reversed, limit⟩ := h
  exact .mk hselection distinct hsource filter filter' hgroupBy _ _ orderings orderings' reversed
    limit

/-- Orderings do not count. -/
theorem order_alike (orderings orderings' : List OrderingTerm) :
    (q.order orderings).Alike ρ (q'.order orderings') := by
  obtain ⟨hselection, distinct, hsource, filter, filter', hgroupBy, having, having', _, _, _,
    limit⟩ := h
  exact .mk hselection distinct hsource filter filter' hgroupBy having having' orderings orderings'
    false limit

theorem reverse_alike : q.reverse.Alike ρ q'.reverse := by
  obtain ⟨hselection, distinct, hsource, filter, filter', hgroupBy, having, having', orderings,
    orderings', reversed, limit⟩ := h
  exact .mk hselection distinct hsource filter filter' hgroupBy having having' orderings orderings'
    (!reversed) limit

theorem take_alike (count : Nat) (offset : Option Nat) :
    (q.take count offset).Alike ρ (q'.take count offset) := by
  obtain ⟨hselection, distinct, hsource, filter, filter', hgroupBy, having, having', orderings,
    orderings', reversed, _⟩ := h
  exact .mk hselection distinct hsource filter filter' hgroupBy having having' orderings orderings'
    reversed _

/-- Joining copies to queries that are alike, in one way, keeps them alike. -/
theorem attach_alike (kind : JoinKind) (included : Bool) {rs rs' : List Relation}
    (hrs : List.Forall₂ (Relation.Copies ρ) rs rs') :
    Supply.Alike ρ Query.Alike (q.attach kind included rs) (q'.attach kind included rs') := by
  obtain ⟨hselection, distinct, hsource, filter, filter', hgroupBy, having, having', orderings,
    orderings', reversed, limit⟩ := h
  cases hsource with
  | none =>
      exact .pure (.mk hselection distinct .none filter filter' hgroupBy having having' orderings
        orderings' reversed limit)
  | some hsource =>
      exact .bind (Join.ofRelations_alike kind included hrs) fun hρ _ _ hmore =>
        .bind (Source.attach_alike (hsource.mono hρ) hmore) fun hρ₁ _ _ hs => .pure
          (.mk (hselection.mono (hρ.trans hρ₁)) distinct (.some hs) filter filter' hgroupBy having
            having' orderings orderings' reversed limit)

/-! ### Counting -/

theorem unordered_alike : q.unordered.Alike ρ q'.unordered := by
  obtain ⟨hselection, distinct, hsource, filter, filter', hgroupBy, having, having', _, _, _,
    limit⟩ := h
  exact .mk hselection distinct hsource filter filter' hgroupBy having having' [] [] false limit

/-- Rows are kept both or neither. -/
theorem keepsRows_alike : q.keepsRows = q'.keepsRows := by
  obtain ⟨_, _, _, _, _, hgroupBy, _, _, _, _, _, _⟩ := h
  rw [keepsRows, keepsRows, hgroupBy]

/-- Both read just one table, under ids that correspond, or neither does. -/
theorem table?_alike : Option.Rel ρ.renames q.table? q'.table? := by
  have hsource := h.source
  unfold table?
  generalize q.source = source, q'.source = source' at hsource
  cases hsource with
  | none => exact .none
  | some hsource =>
      cases hsource with
      | table h => exact .some h
      | subquery => exact .none
      | joinTree => exact .none

section InPlace

variable {id id' : SourceId} (hid : ρ.renames id id')
include hid

omit hid in
/-- A counting query has one column, whatever it counts. -/
theorem counting_alike (e e' : Expr) :
    Query.Alike ρ { q with distinct := false, selection := [.expr e] }
      { q' with distinct := false, selection := [.expr e'] } := by
  obtain ⟨_, _, hsource, filter, filter', hgroupBy, having, having', orderings, orderings',
    reversed, limit⟩ := h
  exact .mk (.cons (.expr e e') .nil) false hsource filter filter' hgroupBy having having' orderings
    orderings' reversed limit

/-- Both are counted in place, in ways that are alike, or neither is. -/
theorem countInPlace?_alike :
    Option.Rel (Query.Alike ρ) (q.countInPlace? id) (q'.countInPlace? id') := by
  have hplace : (q.countInPlace id).Alike ρ (q'.countInPlace id') := counting_alike h _ _
  have hvalues : ∀ e e' : Expr, Option.Rel (Query.Alike ρ)
      (some (if q.distinct then q.countDistinctInPlace e else q.countInPlace id))
      (some (if q'.distinct then q'.countDistinctInPlace e' else q'.countInPlace id')) := by
    intro e e'
    rw [h.distinct]
    split
    · exact .some (counting_alike h _ _)
    · exact .some hplace
  have hseveral : Option.Rel (Query.Alike ρ)
      (if q.distinct then none else some (q.countInPlace id))
      (if q'.distinct then none else some (q'.countInPlace id')) := by
    rw [h.distinct]
    split
    · exact .none
    · exact .some hplace
  have hselection := h.selection
  unfold countInPlace?
  generalize q.selection = selection, q'.selection = selection' at hselection
  cases hselection with
  | nil => exact .none
  | cons hfirst hrest =>
      cases hrest with
      | cons => cases hfirst <;> exact hseveral
      | nil =>
          -- Only a lone column can be counted by its values; a star must be that of the table.
          cases hfirst with
          | star hstar =>
              simp only [Renaming.eq_iff hstar hid, h.distinct]
              split
              · exact .some hplace
              · exact .none
          | expr e e' => exact hvalues e e'
          | aliased e e' _ => exact hvalues e e'

end InPlace

/-- Counts from outside are alike. -/
theorem countFromOutside_alike :
    Supply.Alike ρ Query.Alike q.countFromOutside q'.countFromOutside :=
  .bind (Source.ofQuery_alike h none none) fun _ _ _ hs => .pure
    (.mk (.cons (.expr _ _) .nil) false (.some hs) none none rfl none none [] [] false none)

/-- **Counting queries of queries that are alike are alike**. -/
theorem countQuery_alike : Supply.Alike ρ Query.Alike q.countQuery q'.countQuery := by
  have hplain := unordered_alike h
  have hinPlace : Option.Rel (Query.Alike ρ)
      (if q.unordered.keepsRows then q.unordered.table?.bind q.unordered.countInPlace? else none)
      (if q'.unordered.keepsRows then q'.unordered.table?.bind q'.unordered.countInPlace?
        else none) := by
    rw [keepsRows_alike hplain]
    split
    · exact rel_bind (table?_alike hplain) fun hid => countInPlace?_alike hplain hid
    · exact .none
  simp only [countQuery]
  generalize (if q.unordered.keepsRows then _ else none) = counting,
    (if q'.unordered.keepsRows then _ else none) = counting' at hinPlace
  cases hinPlace with
  | none => exact countFromOutside_alike hplain
  | some hcounting => exact .pure hcounting

end Query

end RelationalQuery
