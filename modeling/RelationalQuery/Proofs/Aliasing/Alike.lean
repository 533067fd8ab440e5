/-
  RelationalQuery.Proofs.Aliasing.Alike — the same query but for names and ids.

  To name a relation is to fork it first, so the queries that are built with and without the name
  differ in their labels and in ids. They are alike if they agree in everything that has a part in
  the columns of their rows: the tables, the logical names and the select lists, whose stars have
  ids that correspond. Labels, conditions and expressions may be any.

  Which ids correspond is known only when both are drawn, so the correspondence grows while queries
  are built. What is alike stays alike when it grows, since a selection is asked to give alike
  columns under every correspondence that comes later.

  Main definitions:
    * `Renaming.Within`, `Renaming.Below`, `Renaming.extend`: correspondences that grow.
    * `Query.Alike`, `Source.Alike`, `Relation.Alike`: the same but for names and ids.
    * `Relation.Copies`: the same but for names and all ids of the FROM tree.

  Main statements:
    * `Query.Alike.mono` and its companions: alike under a greater correspondence.
-/

import RelationalQuery.Proofs.Building.Separation
import RelationalQuery.Proofs.Renaming.Renamed

namespace RelationalQuery

/-! ## Correspondences of ids -/

namespace Renaming

/-- No id corresponds to any. -/
def nothing : Renaming where
  renames _ _ := False
  biUnique := ⟨fun _ _ _ h => h.elim, fun _ _ _ h => h.elim⟩

/-- What corresponds does so in the other as well. -/
def Within (ρ ρ' : Renaming) : Prop := ∀ a b, ρ.renames a b → ρ'.renames a b

theorem Within.refl (ρ : Renaming) : ρ.Within ρ := fun _ _ h => h

/-- Growing twice is growing. -/
theorem Within.trans {ρ ρ' ρ'' : Renaming} (h : ρ.Within ρ') (h' : ρ'.Within ρ'') :
    ρ.Within ρ'' := fun _ _ hab => h' _ _ (h _ _ hab)

/-- Only ids that were drawn before correspond. -/
def Below (ρ : Renaming) (n n' : Nat) : Prop :=
  ∀ a b, ρ.renames a b → a.index < n ∧ b.index < n'

/-- Where nothing corresponds, all that does was drawn before. -/
theorem nothing_below (n n' : Nat) : nothing.Below n n' := fun _ _ h => h.elim

/-- What was drawn before some point was drawn before any later one. -/
theorem Below.mono {ρ : Renaming} {n n' m m' : Nat} (h : ρ.Below n n') (hm : n ≤ m)
    (hm' : n' ≤ m') : ρ.Below m m' :=
  fun _ _ hab =>
    ⟨Nat.lt_of_lt_of_le (h _ _ hab).1 hm, Nat.lt_of_lt_of_le (h _ _ hab).2 hm'⟩

/-- Two new ids correspond as well. -/
def extend (ρ : Renaming) {n n' : Nat} (h : ρ.Below n n') : Renaming where
  renames a b := ρ.renames a b ∨ (a = ⟨n⟩ ∧ b = ⟨n'⟩)
  biUnique := by
    constructor
    · rintro a b c (hac | ⟨rfl, rfl⟩) (hbc | ⟨rfl, hc⟩)
      · exact ρ.biUnique.1 hac hbc
      · exact absurd (h _ _ hac).2 (hc ▸ Nat.lt_irrefl _)
      · exact absurd (h _ _ hbc).2 (Nat.lt_irrefl _)
      · rfl
    · rintro a b c (hab | ⟨rfl, rfl⟩) (hac | ⟨ha, rfl⟩)
      · exact ρ.biUnique.2 hab hac
      · exact absurd (h _ _ hab).1 (ha ▸ Nat.lt_irrefl _)
      · exact absurd (h _ _ hac).1 (Nat.lt_irrefl _)
      · rfl

variable {ρ : Renaming} {n n' : Nat} (h : ρ.Below n n')

/-- What corresponded before the new ids still does. -/
theorem within_extend : ρ.Within (ρ.extend h) := fun _ _ => Or.inl

/-- The new ids were drawn before the next ones. -/
theorem extend_below : (ρ.extend h).Below (n + 1) (n' + 1) := by
  rintro a b (hab | ⟨rfl, rfl⟩)
  · exact ⟨Nat.lt_succ_of_lt (h _ _ hab).1, Nat.lt_succ_of_lt (h _ _ hab).2⟩
  · exact ⟨Nat.lt_succ_self n, Nat.lt_succ_self n'⟩

end Renaming

/-! ## The same but for names and ids -/

/-- Entries of a select list of one form: stars of sources that correspond, or any expressions with
the same label. -/
inductive ResultColumn.Alike (ρ : Renaming) : ResultColumn → ResultColumn → Prop
  | star {s s' : SourceId} (h : ρ.renames s s') : ResultColumn.Alike ρ (.star s) (.star s')
  | expr (e e' : Expr) : ResultColumn.Alike ρ (.expr e) (.expr e')
  | aliased (e e' : Expr) (label : String) :
      ResultColumn.Alike ρ (.aliased e label) (.aliased e' label)

/-- Columns that are alike stay alike under a greater correspondence. -/
theorem ResultColumn.Alike.mono {ρ ρ' : Renaming} (hρ : ρ.Within ρ') {c c' : ResultColumn}
    (h : c.Alike ρ c') : c.Alike ρ' c' := by
  cases h with
  | star h => exact .star (hρ _ _ h)
  | expr e e' => exact .expr e e'
  | aliased e e' label => exact .aliased e e' label

/-- Select lists of one form. -/
def Columns.Alike (ρ : Renaming) : List ResultColumn → List ResultColumn → Prop :=
  List.Forall₂ (ResultColumn.Alike ρ)

theorem Columns.Alike.mono {ρ ρ' : Renaming} (hρ : ρ.Within ρ') {cs cs' : List ResultColumn}
    (h : Columns.Alike ρ cs cs') : Columns.Alike ρ' cs cs' :=
  List.Forall₂.imp (fun _ _ hc => hc.mono hρ) h

/-- Selections that give alike columns for targets that correspond, now and later. -/
def Selection.Alike (ρ : Renaming) (s s' : SourceId → List ResultColumn) : Prop :=
  ∀ ρ' : Renaming, ρ.Within ρ' → ∀ t t', ρ'.renames t t' → Columns.Alike ρ' (s t) (s' t')

theorem Selection.Alike.mono {ρ ρ' : Renaming} (hρ : ρ.Within ρ')
    {s s' : SourceId → List ResultColumn} (h : Selection.Alike ρ s s') :
    Selection.Alike ρ' s s' := fun _ hρ' => h _ (hρ.trans hρ')

section Trees

variable (ρ : Renaming)

mutual

/-- Queries with alike select lists over alike sources. That both are grouped, or neither is,
matters when they are counted. -/
inductive Query.Alike : Query → Query → Prop
  | mk {selection selection' : List ResultColumn}
      (hselection : Columns.Alike ρ selection selection') (distinct : Bool)
      {source source' : Option Source} (hsource : Option.Rel Source.Alike source source')
      (filter filter' : Option Expr) {groupBy groupBy' : List Expr}
      (hgroupBy : groupBy.isEmpty = groupBy'.isEmpty) (having having' : Option Expr)
      (orderings orderings' : List OrderingTerm) (reversed : Bool) (limit : Option Limit) :
      Query.Alike
        ⟨selection, distinct, source, filter, groupBy, having, orderings, reversed, limit⟩
        ⟨selection', distinct, source', filter', groupBy', having', orderings', reversed, limit⟩

/-- Sources of one shape over the same tables, whose nodes correspond. -/
inductive Source.Alike : Source → Source → Prop
  | table {id id' : SourceId} (h : ρ.renames id id') (name : String)
      (label label' : Option Alias) : Source.Alike (.table id name label) (.table id' name label')
  | subquery {id id' : SourceId} (h : ρ.renames id id') {q q' : Query} (hq : Query.Alike q q')
      (label label' : Option Alias) :
      Source.Alike (.subquery id q label) (.subquery id' q' label')
  | joinTree {id id' : SourceId} (h : ρ.renames id id') {left left' : Source}
      (hleft : Source.Alike left left') {joins joins' : List Join}
      (hjoins : List.Forall₂ Join.Alike joins joins') :
      Source.Alike (.joinTree id left joins) (.joinTree id' left' joins')

/-- Relations of one logical name to alike targets, which select alike columns of them. -/
inductive Relation.Alike : Relation → Relation → Prop
  | mk (name : String) {target target' : Source} (htarget : Source.Alike target target')
      (mapping : List (String × String)) (condition condition' : SourceId → SourceId → List Expr)
      {selection selection' : SourceId → List ResultColumn}
      (hselection : Selection.Alike ρ selection selection')
      {joins joins' : List Join} (hjoins : List.Forall₂ Join.Alike joins joins') :
      Relation.Alike ⟨name, target, mapping, condition, selection, joins⟩
        ⟨name, target', mapping, condition', selection', joins'⟩

inductive Join.Alike : Join → Join → Prop
  | mk (included : Bool) (kind : JoinKind) {r r' : Relation} (h : Relation.Alike r r') :
      Join.Alike ⟨included, kind, r⟩ ⟨included, kind, r'⟩

end

/-- Relations that would be alike if the nodes of their FROM trees had other ids. A relation and a
named copy of it are so; the nodes get ids that correspond when they are attached. -/
def Relation.Copies (r r' : Relation) : Prop :=
  ∃ t t' : Relation, t.unnumbered = r.unnumbered ∧ t'.unnumbered = r'.unnumbered ∧ t.Alike ρ t'

end Trees

/-! ## Greater correspondences -/

variable {ρ ρ' : Renaming}

mutual

/-- Queries that are alike stay alike under a greater correspondence. -/
theorem Query.Alike.mono (hρ : ρ.Within ρ') : {q q' : Query} → q.Alike ρ q' → q.Alike ρ' q'
  | ⟨_, _, none, _, _, _, _, _, _⟩, _,
    .mk hselection distinct .none filter filter' hgroupBy having having' orderings orderings'
      reversed limit =>
      .mk (hselection.mono hρ) distinct .none filter filter' hgroupBy having having' orderings
        orderings' reversed limit
  | ⟨_, _, some _, _, _, _, _, _, _⟩, _,
    .mk hselection distinct (.some hsource) filter filter' hgroupBy having having' orderings
      orderings' reversed limit =>
      .mk (hselection.mono hρ) distinct (.some (Source.Alike.mono hρ hsource)) filter filter'
        hgroupBy having having' orderings orderings' reversed limit
termination_by structural q => q

/-- Sources that are alike stay alike under a greater correspondence. -/
theorem Source.Alike.mono (hρ : ρ.Within ρ') : {s s' : Source} → s.Alike ρ s' → s.Alike ρ' s'
  | .table .., _, .table h name label label' => .table (hρ _ _ h) name label label'
  | .subquery .., _, .subquery h hq label label' =>
      .subquery (hρ _ _ h) (Query.Alike.mono hρ hq) label label'
  | .joinTree .., _, .joinTree h hleft hjoins =>
      .joinTree (hρ _ _ h) (Source.Alike.mono hρ hleft) (Join.alikeAll_mono hρ hjoins)
termination_by structural s => s

/-- Relations that are alike stay alike under a greater correspondence. -/
theorem Relation.Alike.mono (hρ : ρ.Within ρ') : {r r' : Relation} → r.Alike ρ r' → r.Alike ρ' r'
  | ⟨_, _, _, _, _, _⟩, _, .mk name htarget mapping condition condition' hselection hjoins =>
      .mk name (Source.Alike.mono hρ htarget) mapping condition condition' (hselection.mono hρ)
        (Join.alikeAll_mono hρ hjoins)
termination_by structural r => r

/-- Joins that are alike, one by one, stay alike under a greater correspondence. -/
theorem Join.alikeAll_mono (hρ : ρ.Within ρ') : {joins joins' : List Join} →
    List.Forall₂ (Join.Alike ρ) joins joins' → List.Forall₂ (Join.Alike ρ') joins joins'
  | [], _, .nil => .nil
  | ⟨_, _, _⟩ :: _, _, .cons (.mk included kind h) hrest =>
      .cons (.mk included kind (Relation.Alike.mono hρ h)) (Join.alikeAll_mono hρ hrest)
termination_by structural joins => joins

end

/-- Copies of relations that are alike stay copies of such under a greater correspondence. -/
theorem Relation.Copies.mono (hρ : ρ.Within ρ') {r r' : Relation} (h : r.Copies ρ r') :
    r.Copies ρ' r' := by
  obtain ⟨t, t', ht, ht', halike⟩ := h
  exact ⟨t, t', ht, ht', halike.mono hρ⟩

/-- Relations that are alike are copies of themselves. -/
theorem Relation.Alike.copies {r r' : Relation} (h : r.Alike ρ r') : r.Copies ρ r' :=
  ⟨r, r', rfl, rfl, h⟩

end RelationalQuery
