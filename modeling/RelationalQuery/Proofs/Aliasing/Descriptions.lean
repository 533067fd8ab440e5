/-
  RelationalQuery.Proofs.Aliasing.Descriptions — names never change the rows of a query.

  A description is a list of building steps in which any value may be used under a name: a relation
  in the place of the relation itself, at whatever depth it is then attached, or a query or a source
  with a name at its root. It is run twice, with the names and without. Both runs hold values
  that are alike, so their queries have the same rows.

  What callers write as functions uses references only as it is given them. This is asked of what
  has a part in the rows: selections give alike columns for what is alike, and a grouping has
  keys on both sides or on neither. A named relation is another occurrence than the relation, so its
  target is not taken out of it either, other than by attaching it.

  Main definitions:
    * `Held.named`: a value under a name.
    * `Instruction`, `Description.plain`, `Description.dressed`: a description, run without and with
      its names.
    * `Description.Fair`: references are used as they are given.

  Main statements:
    * `Step.op_alike`, `Description.run_alike`: both runs hold values that are alike.
    * `Description.names_keep_rows`: their queries have the same rows.
    * `roster_keeps_rows`: people with their leaders, under names.
-/

import RelationalQuery.Proofs.Aliasing.Building
import RelationalQuery.Proofs.Building.Reachable
import RelationalQuery.Proofs.Renaming.Programs

namespace RelationalQuery

variable {ρ : Renaming}

/-! ## Sessions -/

/-- Values of one kind that are alike. A relation may be a copy of the other. -/
inductive Held.Alike (ρ : Renaming) : Bool → Held → Held → Prop
  | query {copy : Bool} {q q' : Query} (h : q.Alike ρ q') :
      Held.Alike ρ copy (.query q) (.query q')
  | source {copy : Bool} {s s' : Source} (h : s.Alike ρ s') :
      Held.Alike ρ copy (.source s) (.source s')
  | relation {copy : Bool} {r r' : Relation} (h : r.AlikeAs ρ copy r') :
      Held.Alike ρ copy (.relation r) (.relation r')

/-- Held values that are alike stay alike under a greater correspondence. -/
theorem Held.Alike.mono {ρ ρ' : Renaming} (hρ : ρ.Within ρ') {copy : Bool} {v v' : Held}
    (h : Held.Alike ρ copy v v') : Held.Alike ρ' copy v v' := by
  cases h with
  | query h => exact .query (h.mono hρ)
  | source h => exact .source (h.mono hρ)
  | relation h => exact .relation (h.mono hρ)

/-- Values that are alike place by place, given which places hold copies. -/
inductive Held.AllAlike (ρ : Renaming) : List Bool → List Held → List Held → Prop
  | nil : Held.AllAlike ρ [] [] []
  | cons {copy : Bool} {v v' : Held} {copies : List Bool} {vs vs' : List Held}
      (h : Held.Alike ρ copy v v') (hrest : Held.AllAlike ρ copies vs vs') :
      Held.AllAlike ρ (copy :: copies) (v :: vs) (v' :: vs')

namespace Held.AllAlike

variable {copies : List Bool} {vs vs' : List Held}

/-- Held values that are alike, one by one, stay alike under a greater correspondence. -/
theorem mono {ρ ρ' : Renaming} (hρ : ρ.Within ρ') (h : Held.AllAlike ρ copies vs vs') :
    Held.AllAlike ρ' copies vs vs' := by
  induction h with
  | nil => exact .nil
  | cons h _ ih => exact .cons (h.mono hρ) ih

/-- At every place both sessions hold values that are alike, or neither holds any. -/
theorem getElem? (h : Held.AllAlike ρ copies vs vs') (place : Nat) :
    Option.Rel (Held.Alike ρ (copies.getD place false)) vs[place]? vs'[place]? := by
  induction h generalizing place with
  | nil => exact .none
  | cons h _ ih =>
      cases place with
      | zero => exact .some h
      | succ place => exact ih place

end Held.AllAlike

/-- The sessions hold values that are alike, given which places hold copies. -/
structure Session.Alike (ρ : Renaming) (copies : List Bool) (σ σ' : Session) : Prop where
  below : ρ.Below σ.next σ'.next
  held : Held.AllAlike ρ copies σ.held σ'.held

namespace Session.Alike

variable {copies : List Bool} {σ σ' : Session} (h : Session.Alike ρ copies σ σ') (place : Nat)
include h

/-- The queries at one place are alike. -/
theorem query? : Option.Rel (Query.Alike ρ) (σ.query? place) (σ'.query? place) :=
  rel_bind (h.held.getElem? place) fun hv => by
    cases hv with
    | query hq => exact .some hq
    | source => exact .none
    | relation => exact .none

/-- The sources at one place are alike. -/
theorem source? : Option.Rel (Source.Alike ρ) (σ.source? place) (σ'.source? place) :=
  rel_bind (h.held.getElem? place) fun hv => by
    cases hv with
    | query => exact .none
    | source hs => exact .some hs
    | relation => exact .none

/-- The relations at one place are alike, as copies if they are marked so. -/
theorem relation? : Option.Rel (Relation.AlikeAs ρ (copies.getD place false)) (σ.relation? place)
    (σ'.relation? place) :=
  rel_bind (h.held.getElem? place) fun hv => by
    cases hv with
    | query => exact .none
    | source => exact .none
    | relation hr => exact .some hr

/-- The relations at one place are copies of relations that are alike. -/
theorem copies? : Option.Rel (Relation.Copies ρ) (σ.relation? place) (σ'.relation? place) := by
  have hr := h.relation? place
  generalize σ.relation? place = r, σ'.relation? place = r' at hr
  cases hr with
  | none => exact .none
  | some hr => exact .some hr.copies

omit place in
/-- So are those at several places, one by one. -/
theorem relations (places : List Nat) : List.Forall₂ (Relation.Copies ρ)
    (places.filterMap σ.relation?) (places.filterMap σ'.relation?) :=
  List.rel_filterMap (R := Eq) (fun place _ heq => heq ▸ h.copies? place)
    (List.forall₂_same.mpr fun _ _ => rfl)

omit place in
/-- What both draw, both hold. -/
theorem draw {copy : Bool} {op op' : Supply Held}
    (hop : Supply.Alike ρ (Held.Alike · copy) op op') :
    ∃ ρ' : Renaming, ρ.Within ρ' ∧ Session.Alike ρ' (copy :: copies) (σ.draw op) (σ'.draw op') := by
  obtain ⟨ρ', hρ, hbelow, hresult⟩ := hop _ _ h.below
  exact ⟨ρ', hρ, hbelow, .cons hresult (h.held.mono hρ)⟩

end Session.Alike

/-! ## Building steps -/

namespace Step

/-- The step gives what may be a copy: a relation that is made of a copy. -/
def givesCopy (copies : List Bool) : Step → Bool
  | .relationBelow relation _ | .restrictRelation relation _ | .selectRelation relation _
  | .attachRelation relation _ _ _ => copies.getD relation false
  | _ => false

/-- What the caller wrote in the step uses references as they are given: in sessions that are alike,
selections are alike, and a grouping has keys on both sides or on neither. The target of a
copy is not taken out of it. -/
def Fair (copies : List Bool) : Step → Prop
  | .targetOf relation => copies.getD relation false = false
  | .selectRelation _ selection => ∀ ρ σ σ', Session.Alike ρ copies σ σ' →
      Selection.Alike ρ (selection.make σ) (selection.make σ')
  | .select _ selection => ∀ ρ σ σ', Session.Alike ρ copies σ σ' →
      Columns.Alike ρ (selection.make σ) (selection.make σ')
  | .group _ keys => ∀ ρ σ σ', Session.Alike ρ copies σ σ' →
      (keys.make σ).isEmpty = (keys.make σ').isEmpty
  | _ => True

/-- The queries inside sources that are alike are alike. -/
theorem inner?_alike {s s' : Source} (h : s.Alike ρ s') :
    Option.Rel (Query.Alike ρ) (inner? s) (inner? s') := by
  cases h with
  | table => exact .none
  | subquery _ hq => exact .some hq
  | joinTree => exact .none

variable {copies : List Bool} {σ σ' : Session}

/-- **In sessions that are alike, a step does alike.** -/
theorem op_alike (h : Session.Alike ρ copies σ σ') (step : Step) (hfair : step.Fair copies) :
    Option.Rel (Supply.Alike ρ (Held.Alike · (step.givesCopy copies))) (step.op σ)
      (step.op σ') := by
  cases step with
  | elsewhere => exact .none
  | tableSource name => exact .some (.map (Source.ofTable_alike name) .source)
  | querySource query name =>
      exact rel_map (h.query? query) fun hq => .map (Source.ofQuery_alike hq _ _) .source
  | nameSource source label =>
      exact rel_map (h.source? source) fun hs =>
        .pure (.source ((hs.labelLeft label).labelRight label))
  | forkSource source =>
      exact rel_map (h.source? source) fun hs => .map (Source.fork_alike _ hs) .source
  | sourceOf query =>
      exact rel_map (rel_bind (h.query? query) fun hq => hq.source) fun hs => .pure (.source hs)
  | baseOf source => exact rel_map (h.source? source) fun hs => .pure (.source hs.base)
  | queryOf source =>
      exact rel_map (rel_bind (h.source? source) inner?_alike) fun hq => .pure (.query hq)
  | targetOf relation =>
      -- A copy has other occurrences than the relation, so it has to be the relation itself.
      have hr := h.relation? relation
      rw [hfair] at hr
      exact rel_map hr fun hr => .pure (.source (Relation.Alike.target hr))
  | relationOf source position =>
      refine rel_map (rel_bind (h.source? source) fun hs => rel_getElem? hs.joins position) ?_
      rintro _ _ ⟨_, _, hr⟩
      -- A relation in its place in a source is alike on both sides, and no mere copy.
      have hr : Relation.AlikeAs ρ false _ _ := hr
      exact .pure (.relation hr)
  | relationBelow relation position =>
      exact rel_map (rel_bind (h.relation? relation) fun hr => hr.below position) fun hj =>
        .pure (.relation hj)
  | foreignKey name target mapping =>
      exact .some (.map (Relation.foreignKey_alike name target mapping) fun hr => .relation hr)
  | toTable name target condition =>
      exact .some (.map (Relation.toTable_alike name target _ _) fun hr => .relation hr)
  | toQuery name query condition =>
      exact rel_map (h.query? query) fun hq =>
        .map (Relation.toQuery_alike name hq _ _) fun hr => .relation hr
  | forkRelation relation =>
      exact rel_map (h.copies? relation) fun hr => .map hr.fork fun hr => .relation hr
  | aliasRelation relation name =>
      exact rel_map (h.copies? relation) fun hr =>
        .map (Relation.aliased_alike hr name) fun hr => .relation hr
  | restrictRelation relation condition =>
      exact rel_map (h.relation? relation) fun hr =>
        .pure (.relation (Relation.restrict_alike hr _ _))
  | selectRelation relation selection =>
      exact rel_map (h.relation? relation) fun hr =>
        .pure (.relation (Relation.select_alike hr (hfair _ _ _ h)))
  | attachRelation relation kind included relations =>
      exact rel_map (h.relation? relation) fun hr =>
        .map (Relation.attach_alike hr kind included (h.relations relations)) .relation
  | emptyQuery => exact .some (.pure (.query Query.empty_alike))
  | ofSource source =>
      exact rel_map (h.source? source) fun hs => .pure (.query (Query.ofSource_alike hs))
  | table name => exact .some (.map (Query.table_alike name) .query)
  | ofQuery query name =>
      exact rel_map (h.query? query) fun hq => .map (Query.ofQuery_alike hq _ _) .query
  | aliased query name =>
      exact rel_map (h.query? query) fun hq =>
        .pure (.query (Query.Alike.aliasedRight (hq.aliasedLeft name) name))
  | select query selection =>
      exact rel_map (h.query? query) fun hq =>
        .pure (.query (Query.select_alike hq (hfair _ _ _ h)))
  | dedup query => exact rel_map (h.query? query) fun hq => .pure (.query (Query.dedup_alike hq))
  | restrict query condition =>
      exact rel_map (h.query? query) fun hq => .pure (.query (Query.restrict_alike hq _ _))
  | group query keys =>
      exact rel_map (h.query? query) fun hq =>
        .pure (.query (Query.group_alike hq (hfair _ _ _ h)))
  | restrictGroups query condition =>
      exact rel_map (h.query? query) fun hq => .pure (.query (Query.restrictGroups_alike hq _ _))
  | order query orderings =>
      exact rel_map (h.query? query) fun hq => .pure (.query (Query.order_alike hq _ _))
  | reverse query =>
      exact rel_map (h.query? query) fun hq => .pure (.query (Query.reverse_alike hq))
  | take query count offset =>
      exact rel_map (h.query? query) fun hq => .pure (.query (Query.take_alike hq count offset))
  | attach query kind included relations =>
      exact rel_map (h.query? query) fun hq =>
        .map (Query.attach_alike hq kind included (h.relations relations)) .query
  | countQuery query =>
      exact rel_map (h.query? query) fun hq => .map (Query.countQuery_alike hq) .query

end Step

/-! ## Descriptions -/

/-- The value under a name: a relation as a named copy, any other with the name at its root. -/
def Held.named (name : String) : Held → Supply Held
  | .query q => pure (.query (q.aliased name))
  | .source s => pure (.source (s.setAlias (.given name)))
  | .relation r => .relation <$> r.aliased name

/-- A value that is given a name is alike to the one that is not. -/
theorem Held.named_alike {copy : Bool} {v v' : Held} (h : Held.Alike ρ copy v v') (name : String) :
    Supply.Alike ρ (Held.Alike · true) (pure v) (v'.named name) := by
  cases h with
  | query hq => exact .pure (.query (hq.aliasedRight name))
  | source hs => exact .pure (.source (hs.labelRight _))
  | relation hr =>
      -- Only the side with the name draws ids here; they correspond to none.
      have hcopies : Supply.Alike ρ (Held.Alike · true) (Held.relation <$> pure _) _ :=
        .map (Relation.copies_aliased hr.copies name) fun hr => .relation hr
      exact hcopies

/-- An instruction of a description: a building step, or a held value to be used under a name from
another place. -/
inductive Instruction where
  | build (step : Step)
  | named (place : Nat) (name : String)

namespace Instruction

/-- The session after the instruction without its name: the value is used as it is. -/
def plain (σ : Session) : Instruction → Session
  | .build step => step.run σ
  | .named place _ => σ.held[place]?.elim σ σ.hold

/-- The session after the instruction with its name. -/
def dressed (σ : Session) : Instruction → Session
  | .build step => step.run σ
  | .named place name => σ.held[place]?.elim σ fun v => σ.draw (v.named name)

/-- Which places hold copies after the instruction. -/
def copies (σ : Session) (copies : List Bool) : Instruction → List Bool
  | .build step => (step.op σ).elim copies fun _ => step.givesCopy copies :: copies
  | .named place _ => σ.held[place]?.elim copies fun _ => true :: copies

/-- The instruction uses references as they are given; to give a name does so. -/
def Fair (copies : List Bool) : Instruction → Prop
  | .build step => step.Fair copies
  | .named .. => True

/-- An instruction without its name and with it keeps sessions alike. -/
theorem run_alike {copies : List Bool} {σ σ' : Session} (h : Session.Alike ρ copies σ σ')
    (i : Instruction) (hfair : i.Fair copies) :
    ∃ ρ' : Renaming, ρ.Within ρ' ∧
      Session.Alike ρ' (i.copies σ copies) (i.plain σ) (i.dressed σ') := by
  cases i with
  | build step =>
      have hop := step.op_alike h hfair
      have hdraw : ∃ ρ' : Renaming, ρ.Within ρ' ∧ Session.Alike ρ'
          ((step.op σ).elim copies fun _ => step.givesCopy copies :: copies)
          ((step.op σ).elim σ σ.draw) ((step.op σ').elim σ' σ'.draw) := by
        generalize step.op σ = op, step.op σ' = op' at hop
        cases hop with
        | none => exact ⟨ρ, .refl ρ, h⟩
        | some hop => exact h.draw hop
      cases step with
      | elsewhere count =>
          -- Ids that are drawn elsewhere are held by neither session.
          exact ⟨ρ, .refl ρ, h.below.mono (Nat.le_add_right ..) (Nat.le_add_right ..), h.held⟩
      | _ => exact hdraw
  | named place name =>
      have hv := h.held.getElem? place
      rw [Instruction.copies, plain, dressed]
      generalize σ.held[place]? = v, σ'.held[place]? = v' at hv
      cases hv with
      | none => exact ⟨ρ, .refl ρ, h⟩
      | some hv => exact h.draw (Held.named_alike hv name)

end Instruction

namespace Description

/-- The session after a description without its names. -/
def plain (description : List Instruction) (σ : Session) : Session :=
  description.foldl Instruction.plain σ

/-- The session after a description with its names. -/
def dressed (description : List Instruction) (σ : Session) : Session :=
  description.foldl Instruction.dressed σ

/-- Each instruction uses references as they are given, where it stands. -/
def Fair (σ : Session) (copies : List Bool) : List Instruction → Prop
  | [] => True
  | i :: rest => i.Fair copies ∧ Fair (i.plain σ) (i.copies σ copies) rest

/-- A description without its names and with them keeps sessions alike. -/
theorem run_alike (description : List Instruction) {copies : List Bool} {σ σ' : Session}
    (h : Session.Alike ρ copies σ σ') (hfair : Fair σ copies description) :
    ∃ (ρ' : Renaming) (copies' : List Bool), ρ.Within ρ' ∧
      Session.Alike ρ' copies' (plain description σ) (dressed description σ') := by
  induction description generalizing ρ copies σ σ' with
  | nil => exact ⟨ρ, copies, .refl ρ, h⟩
  | cons i rest ih =>
      obtain ⟨ρ₁, hρ₁, hstep⟩ := i.run_alike h hfair.1
      obtain ⟨ρ₂, copies', hρ₂, hrest⟩ := ih hstep hfair.2
      exact ⟨ρ₂, copies', hρ₁.trans hρ₂, hrest⟩

/-- **Names never change the rows of a query.** Of any description, with any values used under names
at any places, and of any schema: each query that it builds has the same number of columns with
the names and without, the same variants with the same names, nesting and slices, or the same
error; a select list of the same form; and logical names that lead to the same places. -/
theorem names_keep_rows (description : List Instruction) (n n' : Nat)
    (hfair : Fair ⟨n, []⟩ [] description) (schema : Schema) (place : Nat) :
    Option.Rel (Query.SameRows schema) ((plain description ⟨n, []⟩).query? place)
      ((dressed description ⟨n', []⟩).query? place) := by
  have hstart : Session.Alike .nothing [] ⟨n, []⟩ ⟨n', []⟩ :=
    ⟨Renaming.nothing_below n n', .nil⟩
  obtain ⟨ρ, copies, -, halike⟩ := run_alike description hstart hfair
  have hquery := halike.query? place
  generalize (plain description ⟨n, []⟩).query? place = q,
    (dressed description ⟨n', []⟩).query? place = q' at hquery
  cases hquery with
  | none => exact .none
  | some hq => exact .some (hq.sameRows schema)

end Description

/-! ## People under names -/

namespace Made

/-- All columns of the root of a held query. -/
def rootColumns (place : Nat) : Made fun ρ => List.Forall₂ (ResultColumn.Renamed ρ) where
  make σ := ((σ.query? place).bind Query.root?).toList.map .star
  same_make h := List.rel_map (fun _ _ => .star)
    (rel_toList (rel_bind (h.query? place) Query.root?_renamed))

/-- Columns of a query's root may be asked for, whatever was given a name. -/
theorem rootColumns_fair (copies : List Bool) (query place : Nat) :
    (Step.select query (rootColumns place)).Fair copies := fun _ _ _ h =>
  List.rel_map (fun _ _ => .star) (rel_toList (rel_bind (h.query? place) Query.Alike.root?))

end Made

/-- People with their leaders, and the leaders with theirs: both relations under names, and the
people as well. -/
def roster : List Instruction :=
  [.build (.table "persons"), .build (.foreignKey "leader" "persons" [("leader_id", "id")]),
    .named 0 "boss", .build (.attachRelation 1 .left true [0]), .named 0 "chief",
    .build (.attach 4 .left true [0]), .build (.select 0 (.rootColumns 0)), .named 0 "p"]

/-- The roster gives names to relations and roots only. -/
theorem roster_fair (n : Nat) : Description.Fair ⟨n, []⟩ [] roster :=
  ⟨trivial, trivial, trivial, trivial, trivial, trivial, Made.rootColumns_fair _ 0 0, trivial,
    trivial⟩

/-- Nine columns with the names and without, three of them the leader's. -/
theorem roster_keeps_rows : ∃ q q', (Description.plain roster ⟨0, []⟩).query? 0 = some q ∧
    (Description.dressed roster ⟨0, []⟩).query? 0 = some q' ∧ q.width people = .ok 9 ∧
    Query.SameRows people q q' := by
  have hquery := Description.names_keep_rows roster 0 0 (roster_fair 0) people 0
  have hwidth : ((Description.plain roster ⟨0, []⟩).query? 0).map (Query.width people) =
      some (.ok 9) := by
    decide +kernel
  generalize (Description.plain roster ⟨0, []⟩).query? 0 = q,
    (Description.dressed roster ⟨0, []⟩).query? 0 = q' at hquery hwidth
  cases hquery with
  | none => cases hwidth
  | some hq => exact ⟨_, _, rfl, rfl, Option.some.inj hwidth, hq⟩

end RelationalQuery
