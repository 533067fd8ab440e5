/-
  RelationalQuery.Proofs.Statement.Columns — how many columns a written statement returns.

  A written star is expanded against the FROM clause: in front of it stands a name, and then it
  gives the columns of the source of that name, or nothing, and then it gives those of all sources.
  The number of columns that a query promises is computed without a statement, by the ids of its
  sources. The two meet at the leaves of the FROM tree, which have the same columns and go by the
  names that were chosen for their ids.

  One star is written bare though it belongs to one source only: that of an unnamed subquery at the
  root. Alone in its FROM clause it still gives what it should; beside joined sources it gives their
  columns as well, and these were not promised.

  Main definitions:
    * `Sql.Statement.columns`: the columns of a statement, by the rule for stars.
    * `Sql.Statement.StarsAlone`: no source's bare star stands beside other sources.

  Main statements:
    * `Query.columns_of_resolve`: the induction over statements and FROM trees.
    * `Session.Reachable.columns_eq_width`: of every query that building gives.
-/

import RelationalQuery.Proofs.Building.Trees
import RelationalQuery.Proofs.Statement.Wiring
import RelationalQuery.Select.Width

namespace RelationalQuery

namespace Sql

/-! ## Expanding stars -/

/-- A source of a FROM clause as a star sees it: the name it goes by, and the number of its columns
if it has one. -/
structure Span where
  name : Option String
  columns : Option Nat

/-- The columns of all sources. -/
def Span.total : List Span → Option Nat
  | [] => some 0
  | span :: rest => do return (← span.columns) + (← Span.total rest)

/-- The columns of the first source. -/
def Span.first : List Span → Option Nat
  | [] => none
  | span :: _ => span.columns

/-- The columns of the source that goes by a name, ASCII case aside. -/
def Span.named (name : String) (spans : List Span) : Option Nat :=
  (spans.find? fun span => span.name.any fun own => decide (Identifier.Same own name)).bind
    (·.columns)

/-- The columns of an entry of a select list, where `bare` is what the bare star of a source gives.
What is no star gives one column. -/
def Item.columns (bare : List Span → Option Nat) (spans : List Span) : Item → Option Nat
  | .everything => Span.total spans
  | .star ⟨_, some name⟩ => Span.named name spans
  | .star ⟨_, none⟩ => bare spans
  | .term _ | .aliased _ _ => some 1

/-- The columns of a select list. -/
def Item.columnsAll (bare : List Span → Option Nat) (spans : List Span) : List Item → Option Nat
  | [] => some 0
  | item :: rest => do return (← item.columns bare spans) + (← Item.columnsAll bare spans rest)

mutual

/-- The columns of a statement, where `bare` is what the bare star of a source gives. -/
def Statement.columnsBy (bare : List Span → Option Nat) (schema : Schema) :
    Statement → Option Nat
  | ⟨_, items, added, source, _, _, _, _, _⟩ =>
    Item.columnsAll bare (From.spansOf bare schema source) (items ++ added)

/-- The sources of a FROM clause, if there is one. -/
def From.spansOf (bare : List Span → Option Nat) (schema : Schema) : Option From → List Span
  | some source => source.spans bare schema
  | none => []

/-- The sources of a FROM clause in order. -/
def From.spans (bare : List Span → Option Nat) (schema : Schema) : From → List Span
  | .table _ table name => [⟨some (name.getD table), (schema.columnCount table).toOption⟩]
  | .query _ statement name => [⟨name, statement.columnsBy bare schema⟩]
  | .joined left joins => left.spans bare schema ++ JoinClause.spansAll bare schema joins

/-- The sources of joins in order, with those below each. -/
def JoinClause.spansAll (bare : List Span → Option Nat) (schema : Schema) :
    List JoinClause → List Span
  | [] => []
  | ⟨_, target, _, _⟩ :: rest => target.spans bare schema ++ JoinClause.spansAll bare schema rest

end

/-- The columns of a statement: a bare star gives those of all sources, whatever it was written
for. -/
def Statement.columns (schema : Schema) : Statement → Option Nat :=
  Statement.columnsBy Span.total schema

/-- The bare star of a source. -/
def Item.isBareStar : Item → Bool
  | .star ⟨_, none⟩ => true
  | _ => false

mutual

/-- Where the bare star of a source is written, in a statement or in the subqueries of its FROM
clause, the source is the only one. -/
def Statement.StarsAlone : Statement → Prop
  | ⟨_, items, added, source, _, _, _, _, _⟩ =>
    (∀ item ∈ items ++ added, item.isBareStar = true →
      ((source.map From.leaves).getD []).length ≤ 1) ∧ From.StarsAloneOf source

def From.StarsAloneOf : Option From → Prop
  | some source => source.StarsAlone
  | none => True

/-- The same of the statements inside a FROM clause. -/
def From.StarsAlone : From → Prop
  | .table _ _ _ => True
  | .query _ statement _ => statement.StarsAlone
  | .joined left joins => left.StarsAlone ∧ JoinClause.StarsAloneAll joins

def JoinClause.StarsAloneAll : List JoinClause → Prop
  | [] => True
  | ⟨_, target, _, _⟩ :: rest => target.StarsAlone ∧ JoinClause.StarsAloneAll rest

end

mutual

def Statement.decideStarsAlone : (s : Statement) → Decidable s.StarsAlone
  | ⟨_, items, added, source, _, _, _, _, _⟩ =>
    have := From.decideStarsAloneOf source
    inferInstanceAs (Decidable ((∀ item ∈ items ++ added, item.isBareStar = true →
      ((source.map From.leaves).getD []).length ≤ 1) ∧ From.StarsAloneOf source))

def From.decideStarsAloneOf : (source : Option From) → Decidable (From.StarsAloneOf source)
  | some source => source.decideStarsAlone
  | none => instDecidableTrue

def From.decideStarsAlone : (f : From) → Decidable f.StarsAlone
  | .table _ _ _ => instDecidableTrue
  | .query _ statement _ => statement.decideStarsAlone
  | .joined left joins =>
    have := left.decideStarsAlone
    have := JoinClause.decideStarsAloneAll joins
    inferInstanceAs (Decidable (left.StarsAlone ∧ JoinClause.StarsAloneAll joins))

def JoinClause.decideStarsAloneAll : (clauses : List JoinClause) →
    Decidable (JoinClause.StarsAloneAll clauses)
  | [] => instDecidableTrue
  | ⟨_, target, _, _⟩ :: rest =>
    have := target.decideStarsAlone
    have := JoinClause.decideStarsAloneAll rest
    inferInstanceAs (Decidable (target.StarsAlone ∧ JoinClause.StarsAloneAll rest))

end

instance (s : Statement) : Decidable s.StarsAlone := s.decideStarsAlone

theorem JoinClause.starsAlone_append : (a b : List JoinClause) →
    JoinClause.StarsAloneAll (a ++ b) =
      (JoinClause.StarsAloneAll a ∧ JoinClause.StarsAloneAll b)
  | [], b => (true_and _).symm
  | ⟨_, target, _, _⟩ :: rest, b => by
      rw [List.cons_append, StarsAloneAll, StarsAloneAll, starsAlone_append rest b, and_assoc]

theorem JoinClause.spansAll_append {bare : List Span → Option Nat} {schema : Schema} :
    (a b : List JoinClause) → JoinClause.spansAll bare schema (a ++ b) =
      JoinClause.spansAll bare schema a ++ JoinClause.spansAll bare schema b
  | [], b => rfl
  | ⟨_, target, _, _⟩ :: rest, b => by
      rw [List.cons_append, spansAll, spansAll, spansAll_append rest b, List.append_assoc]

/-- The rule for the bare star of a source gives the columns of that source in the statement. -/
def Fair (bare : List Span → Option Nat) (alone : Prop) : Prop :=
  bare = Span.first ∨ (bare = Span.total ∧ alone)

/-- A rule that is fair under one condition is fair under any that follows from it. -/
theorem Fair.imp {bare : List Span → Option Nat} {a b : Prop} (h : Fair bare a) (hab : a → b) :
    Fair bare b := Or.imp (fun hfirst => hfirst) (fun hall => ⟨hall.1, hab hall.2⟩) h

end Sql

open Sql

/-! ## Widths of leaves -/

/-- The columns of adjacent sources. -/
def Source.widthAll (schema : Schema) : List Source → Width
  | [] => .ok 0
  | t :: rest => do return (← t.width schema) + (← Source.widthAll schema rest)

/-- The widths of sources behind each other add up. -/
theorem Source.widthAll_append {schema : Schema} : {a b : List Source} → {m n : Nat} →
    Source.widthAll schema a = .ok m → Source.widthAll schema b = .ok n →
      Source.widthAll schema (a ++ b) = .ok (m + n)
  | [], b, m, n, ha, hb => by
      cases ha
      rw [List.nil_append, hb, Nat.zero_add]
  | t :: rest, b, m, n, ha, hb => by
      obtain ⟨x, hx, ha⟩ := bind_eq_ok.mp ha
      obtain ⟨y, hy, ha⟩ := bind_eq_ok.mp ha
      cases ha
      rw [List.cons_append, Source.widthAll, hx, Source.widthAll_append hy hb]
      exact congrArg Except.ok (Nat.add_assoc x y n).symm

/-- Two extents beside each other are as wide as both. -/
theorem Extent.of_beside {a b : Extent} {n : Nat} (h : (a.beside b).width = .ok n) :
    ∃ x y, a.width = .ok x ∧ b.width = .ok y ∧ n = x + y := by
  obtain ⟨x, hx, h⟩ := bind_eq_ok.mp h
  obtain ⟨y, hy, h⟩ := bind_eq_ok.mp h
  exact ⟨x, y, hx, hy, (pure_eq_ok.mp h).symm⟩

/-- The columns of joins are those of their targets. -/
theorem Join.widthAll_of_extents {schema : Schema} : (joins : List Join) → {n : Nat} →
    (Join.extents schema joins).width = .ok n →
      Source.widthAll schema (Join.targets joins) = .ok n
  | [], _, h => h
  | ⟨_, _, ⟨_, target, _, _, _, joins⟩⟩ :: rest, n, h => by
      rw [Join.extents] at h
      obtain ⟨_, z, hown, hrest, rfl⟩ := Extent.of_beside h
      obtain ⟨x, y, htarget, hjoins, rfl⟩ := Extent.of_beside hown
      have hbelow := Join.widthAll_of_extents joins hjoins
      rw [Join.targets, Relation.targets]
      refine Source.widthAll_append ?_ (Join.widthAll_of_extents rest hrest)
      rw [Source.widthAll, show target.width schema = .ok x from htarget, hbelow]
      rfl

/-- The columns of a source are those of its leaves. -/
theorem Source.widthAll_of_width {schema : Schema} {s : Source} {n : Nat}
    (h : s.width schema = .ok n) : Source.widthAll schema s.leaves = .ok n := by
  match s with
  | .table id name label =>
      show Source.widthAll schema [.table id name label] = _
      rw [Source.widthAll, h]
      rfl
  | .subquery id q label =>
      show Source.widthAll schema [.subquery id q label] = _
      rw [Source.widthAll, h]
      rfl
  | .joinTree id left joins =>
      rw [Source.width, Source.extent] at h
      obtain ⟨x, y, hleft, hjoins, rfl⟩ := Extent.of_beside h
      show Source.widthAll schema (left :: Join.targets joins) = _
      rw [Source.widthAll, show left.width schema = .ok x from hleft,
        Join.widthAll_of_extents joins hjoins]
      rfl

mutual

/-- What is found in a FROM tree is one of its leaves, or the whole tree. -/
theorem Source.of_find? {id : SourceId} : (s : Source) → (∀ t ∈ s.leaves, t.IsLeaf) →
    ∀ t, s.find? id = some t → (t ∈ s.leaves ∧ t.id = id) ∨ id ∈ s.ownTree
  | .table other name label, _, t, h => by
      rw [Source.find?] at h
      split at h
      · rename_i heq
        -- A leaf is found under its own id only.
        cases h
        exact Or.inl ⟨List.mem_cons_self .., heq⟩
      · cases h
  | .subquery other query label, _, t, h => by
      rw [Source.find?] at h
      split at h
      · rename_i heq
        cases h
        exact Or.inl ⟨List.mem_cons_self .., heq⟩
      · cases h
  | .joinTree other left joins, hleaf, t, h => by
      have hleft : left.IsLeaf := hleaf left (List.mem_cons_self ..)
      rw [Source.find?] at h
      split at h
      · rename_i heq
        exact Or.inr (List.mem_singleton.mpr heq.symm)
      · rcases Option.or_eq_some_iff.mp h with hfound | ⟨_, hfound⟩
        · rcases Source.of_find? left (Source.isLeaf_of_mem_leaves hleft) t hfound with
            ⟨hmem, heq⟩ | hown
          · rw [Source.leaves_of_isLeaf hleft, List.mem_singleton] at hmem
            exact Or.inl ⟨hmem ▸ List.mem_cons_self .., heq⟩
          · -- Nothing is joined inside the base.
            rw [Source.ownTree_of_isLeaf hleft] at hown
            cases hown
        · obtain ⟨hmem, heq⟩ := Join.of_findSource? joins
            (fun t ht => hleaf t (List.mem_cons_of_mem _ ht)) t hfound
          exact Or.inl ⟨List.mem_cons_of_mem _ hmem, heq⟩

theorem Join.of_findSource? {id : SourceId} : (joins : List Join) →
    (∀ t ∈ Join.targets joins, t.IsLeaf) → ∀ t, Join.findSource? id joins = some t →
      t ∈ Join.targets joins ∧ t.id = id
  | [], _, t, h => by cases h
  | ⟨_, _, ⟨_, target, _, _, _, joins⟩⟩ :: rest, hleaf, t, h => by
      rw [Join.targets, Relation.targets] at hleaf ⊢
      obtain ⟨hown, hrest⟩ := List.forall_mem_append.mp hleaf
      obtain ⟨htarget, hjoins⟩ := List.forall_mem_cons.mp hown
      rw [Join.findSource?] at h
      -- The id is that of the target, of one below it, or of one in the joins that follow.
      rcases Option.or_eq_some_iff.mp h with hfound | ⟨_, hfound⟩
      · rcases Option.or_eq_some_iff.mp hfound with hfound | ⟨_, hfound⟩
        · rcases Source.of_find? target (Source.isLeaf_of_mem_leaves htarget) t hfound with
            ⟨hmem, heq⟩ | hown
          · rw [Source.leaves_of_isLeaf htarget, List.mem_singleton] at hmem
            exact ⟨List.mem_append_left _ (hmem ▸ List.mem_cons_self ..), heq⟩
          · rw [Source.ownTree_of_isLeaf htarget] at hown
            cases hown
        · obtain ⟨hmem, heq⟩ := Join.of_findSource? joins hjoins t hfound
          exact ⟨List.mem_append_left _ (List.mem_cons_of_mem _ hmem), heq⟩
      · obtain ⟨hmem, heq⟩ := Join.of_findSource? rest hrest t hfound
        exact ⟨List.mem_append_right _ hmem, heq⟩

end

/-! ## Leaves and their spans -/

section Spans

variable {scope : Scope}

/-- A leaf and what a star sees of it: its name, and its columns if they are known. -/
structure Source.HasSpan (scope : Scope) (t : Source) (span : Span) : Prop where
  name_eq : span.name = (t.introduced scope).name
  columns_eq : ∀ n, t.width scope.schema = .ok n → span.columns = some n

/-- The spans of leaves, one for each. -/
inductive Source.HaveSpans (scope : Scope) : List Source → List Span → Prop
  | nil : HaveSpans scope [] []
  | cons {t : Source} {span : Span} {ts : List Source} {spans : List Span}
      (own : t.HasSpan scope span) (rest : HaveSpans scope ts spans) :
      HaveSpans scope (t :: ts) (span :: spans)

/-- The spans of sources behind each other stand behind each other. -/
theorem Source.HaveSpans.append {a b : List Source} {xs ys : List Span}
    (ha : Source.HaveSpans scope a xs) (hb : Source.HaveSpans scope b ys) :
    Source.HaveSpans scope (a ++ b) (xs ++ ys) := by
  induction ha with
  | nil => exact hb
  | cons own _ ih => exact .cons own ih

/-- All sources together have the columns of the leaves. -/
theorem Source.HaveSpans.total {ts : List Source} {spans : List Span}
    (h : Source.HaveSpans scope ts spans) :
    ∀ n, Source.widthAll scope.schema ts = .ok n → Span.total spans = some n := by
  induction h with
  | nil =>
      intro n hn
      cases hn
      rfl
  -- The first source has its width, and the others have theirs by induction.
  | cons hspan _ ih =>
      intro n hn
      obtain ⟨x, hx, hn⟩ := bind_eq_ok.mp hn
      obtain ⟨y, hy, hn⟩ := bind_eq_ok.mp hn
      cases hn
      rw [Span.total, hspan.columns_eq x hx, ih y hy]
      rfl

/-- The source of a leaf's name is that leaf, since no two names are the same. -/
theorem Source.HaveSpans.named {ts : List Source} {spans : List Span}
    (h : Source.HaveSpans scope ts spans)
    (happart : (ts.map (Source.introduced scope)).Pairwise fun a b =>
      ∀ m, a.name = some m → ∀ n, b.name = some n → ¬Identifier.Same m n)
    {t : Source} (ht : t ∈ ts) {name : String} (hname : (t.introduced scope).name = some name)
    {n : Nat} (hn : t.width scope.schema = .ok n) : Span.named name spans = some n := by
  induction h with
  | nil => cases ht
  | @cons u span rest _ hspan hspans ih =>
      rw [List.map_cons, List.pairwise_cons] at happart
      rw [Span.named, List.find?_cons]
      rcases List.mem_cons.mp ht with rfl | hrest
      · rw [hspan.name_eq, hname]
        rw [Option.any_some, decide_eq_true (Identifier.Same.refl name)]
        exact hspan.columns_eq n hn
      · -- An earlier source has another name, if it has one at all.
        have hother : (span.name.any fun own => decide (Identifier.Same own name)) = false := by
          rw [hspan.name_eq]
          cases hown : (u.introduced scope).name with
          | none => rfl
          | some own =>
              rw [Option.any_some]
              exact decide_eq_false (happart.1 _ (List.mem_map_of_mem hrest) own hown name hname)
        rw [hother]
        exact ih happart.2 hrest

/-- The first span is that of the first source. -/
theorem Source.HaveSpans.first {t : Source} {ts : List Source} {spans : List Span}
    (h : Source.HaveSpans scope (t :: ts) spans) {n : Nat} (hn : t.width scope.schema = .ok n) :
    Span.first spans = some n := by
  cases h with
  | cons hspan _ => exact hspan.columns_eq n hn

/-- The bare star of the first source gives its columns, by a fair rule. -/
theorem Source.HaveSpans.alone {t : Source} {ts : List Source} {spans : List Span}
    (h : Source.HaveSpans scope (t :: ts) spans) {n : Nat} (hn : t.width scope.schema = .ok n)
    {bare : List Span → Option Nat} (hfair : Fair bare ((t :: ts).length ≤ 1)) :
    bare spans = some n := by
  rcases hfair with rfl | ⟨rfl, hone⟩
  · exact h.first hn
  · have hnil : ts = [] := List.eq_nil_of_length_eq_zero (by rw [List.length_cons] at hone; omega)
    subst hnil
    refine h.total n ?_
    rw [Source.widthAll, hn]
    rfl

end Spans

/-! ## Select lists -/

/-- The items of columns behind each other stand behind each other. -/
theorem ResultColumn.resolveAll_append {scope : Scope} : {a b : List ResultColumn} →
    {xs ys : List Item} → ResultColumn.resolveAll scope a = .ok xs →
      ResultColumn.resolveAll scope b = .ok ys →
        ResultColumn.resolveAll scope (a ++ b) = .ok (xs ++ ys)
  | [], b, xs, ys, ha, hb => by
      rw [ResultColumn.resolveAll] at ha
      cases ha
      exact hb
  | column :: rest, b, xs, ys, ha, hb => by
      rw [ResultColumn.resolveAll] at ha
      obtain ⟨first, hfirst, ha⟩ := bind_eq_ok.mp ha
      obtain ⟨others, hothers, ha⟩ := bind_eq_ok.mp ha
      cases ha
      rw [List.cons_append, ResultColumn.resolveAll, hfirst,
        ResultColumn.resolveAll_append hothers hb]
      rfl

/-- The entries that joins add are those that their relations emit. -/
theorem Join.resolveAll_emitted {scope : Scope} : (joins : List Join) → ∀ items,
    Join.resolveColumns scope joins = .ok items →
      ResultColumn.resolveAll scope (Join.emittedAll joins) = .ok items
  | [], items, h => by
      rw [Join.resolveColumns] at h
      cases h
      rw [Join.emittedAll, ResultColumn.resolveAll]
  | ⟨included, _, ⟨_, target, _, _, selection, joins⟩⟩ :: rest, items, h => by
      obtain ⟨own, nested, others, hown, hnested, hothers, rfl⟩ := Join.of_resolveColumns_cons h
      have hself : ResultColumn.resolveAll scope (if included then selection target.id else []) =
          .ok own := by
        cases included
        · exact hown
        · exact hown
      rw [Join.emittedAll, Relation.emitted]
      exact ResultColumn.resolveAll_append
        (ResultColumn.resolveAll_append hself (Join.resolveAll_emitted joins nested hnested))
        (Join.resolveAll_emitted rest others hothers)

section Stars

variable {scope : Scope} {bare : List Span → Option Nat} {spans : List Span}

/-- A star gives the columns of its source: by the source's name, or bare by a fair rule. -/
theorem Source.columns_of_star {s : Source} (hleaf : ∀ t ∈ s.leaves, t.IsLeaf)
    (hspans : Source.HaveSpans scope s.leaves spans)
    (hwell : WellNamed (s.leaves.map (Source.introduced scope)))
    (hnamed : ∀ t ∈ s.leaves, scope.find? t.id = some (t.introduced scope).name)
    (htree : ∀ id ∈ s.ownTree, scope.find? id = none) {id : SourceId} {r : Reference}
    (hr : Reference.resolve scope id "*" = .ok r)
    (hfair : r.qualifier = none → Fair bare (s.leaves.length ≤ 1)) {n : Nat}
    (hn : (ResultColumn.star id).widthAmong (s.extent scope.schema).members = .ok n) :
    (Item.star r).columns bare spans = some n := by
  obtain ⟨hsource, hfind⟩ := Reference.of_resolve hr
  rw [ResultColumn.widthAmong, Source.lookup_members] at hn
  cases ht : s.find? id with
  | none =>
      rw [ht] at hn
      cases hn
  | some t =>
      rw [ht] at hn
      have hwidth : t.width scope.schema = .ok n := hn
      rcases Source.of_find? s hleaf t ht with ⟨hmem, rfl⟩ | hown
      · have hname : (t.introduced scope).name = r.qualifier :=
          Option.some.inj ((hnamed t hmem).symm.trans hfind)
        obtain ⟨source, qualifier⟩ := r
        cases qualifier with
        | some name => exact hspans.named hwell.apart hmem hname hwidth
        | none =>
            -- Only the base can have no name.
            have hbase : t = s.base := by
              rcases List.mem_cons.mp hmem with heq | htarget
              · exact heq
              · have hsome := hwell.named (t.introduced scope) (List.mem_map_of_mem htarget)
                rw [hname] at hsome
                cases hsome
            subst hbase
            exact hspans.alone hwidth (hfair rfl)
      · rw [htree id hown] at hfind
        cases hfind

/-- The columns of resolved entries are as many as was computed. -/
theorem ResultColumn.columnsAll_of_resolve {members : List (SourceId × Width)} :
    (columns : List ResultColumn) → ∀ items, ResultColumn.resolveAll scope columns = .ok items →
    (∀ id r, Reference.resolve scope id "*" = .ok r → .star r ∈ items → ∀ n,
      (ResultColumn.star id).widthAmong members = .ok n →
        (Item.star r).columns bare spans = some n) → ∀ start n,
    ResultColumn.totalWidth members columns start = .ok n →
      ∃ m, Item.columnsAll bare spans items = some m ∧ n = start + m
  | [], items, hitems, _, start, n, hn => by
      rw [ResultColumn.resolveAll] at hitems
      cases hitems
      cases hn
      exact ⟨0, rfl, rfl⟩
  | column :: rest, items, hitems, hstar, start, n, hn => by
      rw [ResultColumn.resolveAll] at hitems
      obtain ⟨item, hitem, hitems⟩ := bind_eq_ok.mp hitems
      obtain ⟨others, hothers, hitems⟩ := bind_eq_ok.mp hitems
      cases hitems
      rw [ResultColumn.totalWidth] at hn
      obtain ⟨own, hown, hn⟩ := bind_eq_ok.mp hn
      obtain ⟨m, hm, rfl⟩ := ResultColumn.columnsAll_of_resolve rest others hothers
        (fun id r hr hmem => hstar id r hr (List.mem_cons_of_mem _ hmem)) _ n hn
      -- Only a star can have more than one column, and it has those that are asked for.
      have hcolumns : item.columns bare spans = some own := by
        cases column with
        | star id =>
            rw [ResultColumn.resolve] at hitem
            obtain ⟨r, hr, hitem⟩ := bind_eq_ok.mp hitem
            cases hitem
            exact hstar id r hr (List.mem_cons_self ..) own hown
        | expr e =>
            rw [ResultColumn.resolve] at hitem
            obtain ⟨t, _, hitem⟩ := bind_eq_ok.mp hitem
            cases hitem
            cases hown
            rfl
        | aliased e label =>
            rw [ResultColumn.resolve] at hitem
            obtain ⟨t, _, hitem⟩ := bind_eq_ok.mp hitem
            cases hitem
            cases hown
            rfl
      refine ⟨own + m, ?_, Nat.add_assoc start own m⟩
      rw [Item.columnsAll, hcolumns, hm]
      rfl

end Stars

/-! ## Statements and FROM trees -/

/-- Where only one statement's leaves are named, other ids have no name. -/
theorem NamedAmong.find?_eq_none {scope : Scope} {os : List Occurrence}
    (h : NamedAmong os [] scope.namings) {id : SourceId} (hid : id ∉ os.map (·.id)) :
    scope.find? id = none := by
  rw [Scope.find?]
  -- There is one choice of names only, and it names the given leaves.
  generalize scope.namings = namings at h
  cases h with
  | @intro naming _ hchosen haround =>
      cases haround
      rw [List.findSome?_cons]
      cases hlookup : naming.lookup id with
      | none => rfl
      | some name =>
          exact absurd ((Naming.mem_ids_of_lookup hchosen).mp (by rw [hlookup]; rfl)) hid

section Statements

variable {scope : Scope} {os : List Occurrence} {bare : List Span → Option Nat}

/-- A select list that is one bare star has the columns of the whole source. -/
theorem Clauses.of_readsWhole {selection : List ResultColumn} {source : Option Source}
    (h : Clauses.readsWhole selection source = true) :
    ∃ s, source = some s ∧ selection = [.star s.id] ∧ s.relationColumns = [] := by
  unfold Clauses.readsWhole at h
  split at h
  · rw [Bool.and_eq_true, List.isEmpty_iff, decide_eq_true_eq] at h
    obtain ⟨hempty, rfl⟩ := h
    exact ⟨_, rfl, rfl, hempty⟩
  · cases h

/-- Among the members of a source its own id has its width. -/
theorem Source.lookup_own (schema : Schema) (s : Source) :
    (s.extent schema).members.lookup s.id = some (s.width schema) := by
  rw [Source.lookup_members]
  cases s with
  | table id name label =>
      rw [Source.find?, Source.id, if_pos rfl]
      rfl
  | subquery id q label =>
      rw [Source.find?, Source.id, if_pos rfl]
      rfl
  | joinTree id left joins =>
      rw [Source.find?, Source.id, if_pos rfl]
      rfl

mutual

/-- **A statement returns as many columns as were computed**, by a rule that is fair to it. -/
theorem Query.columns_of_resolve (hnamed : NamedAmong os [] scope.namings) : (q : Query) →
    q.Sound → q.occurrences ⊆ os → Coherent q.pinned os →
    (∀ id ∈ q.trees, id ∉ os.map (·.id)) → ∀ s, q.resolve scope = .ok s →
    Fair bare s.StarsAlone → ∀ n, q.width scope.schema = .ok n →
      s.columnsBy bare scope.schema = some n
  | ⟨selection, _, source, _, _, _, _, _, _⟩, hsound, hsubset, hcoherent, htrees,
      ⟨_, own, added, clause, _, _, _, _, _⟩, h, hfair, n, hn => by
      have hinner := fun p hp => hsound.nested (p := p) (Or.inr hp)
      have hproper := fun s hs => hsound.proper (s := s) hs
      rw [Query.occurrences_eq] at hsubset
      rw [Query.pinned_eq] at hcoherent
      rw [Query.trees_eq] at htrees
      have hresolution := Query.resolve_eq_ok.mp h
      have hcolumns : itemsOf _ _ _ = .ok (own, added) := hresolution.items
      have hclause : Source.resolveClause scope source = .ok clause := hresolution.source
      rw [Statement.StarsAlone] at hfair
      have hspans := Source.spansOf_of_resolve hnamed source
        (fun s hs p hp => hinner p ⟨s, hs, hp⟩) (fun s hs => (hproper s hs).leaf) hsubset hcoherent
        htrees clause hclause (hfair.imp fun h => h.2)
      obtain ⟨hfits, hwell⟩ := Source.fits_of_resolveClause hnamed hproper hsubset hcoherent hclause
      rw [Statement.columnsBy]
      unfold itemsOf at hcolumns
      split at hcolumns
      · -- One star for everything: the columns are those of all leaves.
        rename_i hwhole
        obtain ⟨s, rfl, rfl, hempty⟩ := Clauses.of_readsWhole hwhole
        cases hcolumns
        rw [Query.width, hempty, List.append_nil, ResultColumn.totalWidth,
          ResultColumn.widthAmong, Source.lookup_own] at hn
        obtain ⟨m, hm, hn⟩ := bind_eq_ok.mp hn
        cases hn
        have htotal := Source.HaveSpans.total hspans m (Source.widthAll_of_width hm)
        show (do return (← Span.total (From.spansOf bare scope.schema clause)) + 0) = _
        rw [htotal]
        exact congrArg some (Nat.add_comm m 0)
      · obtain ⟨_, hown, hcolumns⟩ := bind_eq_ok.mp hcolumns
        obtain ⟨_, hadded, hcolumns⟩ := bind_eq_ok.mp hcolumns
        cases hcolumns
        cases source with
        | none =>
            -- Without a source no star has a width.
            cases hadded
            rw [Query.width] at hn
            obtain ⟨m, hm, rfl⟩ := ResultColumn.columnsAll_of_resolve selection own hown
              (fun id r _ _ n hn => by cases hn) 0 n hn
            rw [List.append_nil, Nat.zero_add]
            exact hm
        | some s =>
            obtain ⟨t, ht, rfl⟩ := map_eq_ok.mp hclause
            have hs := hproper s rfl
            rw [Option.map_some, Option.getD_some, Source.leaves_of_resolve hs.leaf ht]
              at hfits hwell hfair
            rw [Source.resolveColumns_eq] at hadded
            rw [Query.width] at hn
            have hitems := ResultColumn.resolveAll_append hown
              (Join.resolveAll_emitted s.joins added hadded)
            have hstar : ∀ id r, Reference.resolve scope id "*" = .ok r → .star r ∈ own ++ added →
                ∀ w, (ResultColumn.star id).widthAmong (s.extent scope.schema).members = .ok w →
                  (Item.star r).columns bare (t.spans bare scope.schema) = some w := by
              intro id r hr hmem w hw
              refine Source.columns_of_star hs.leaf hspans hwell (fun u hu => ?_)
                (fun own hown => ?_) hr (fun hnone => hfair.imp fun halone => ?_) hw
              · rw [← Source.id_introduced scope u]
                exact hfits.find? (List.mem_map_of_mem hu)
              · refine hnamed.find?_eq_none (htrees own ?_)
                rw [Option.map_some, Option.getD_some, Source.trees_eq]
                exact List.mem_append_left _ hown
              · obtain ⟨source, qualifier⟩ := r
                cases hnone
                have := halone.1 _ hmem rfl
                rwa [List.length_map] at this
            obtain ⟨m, hm, rfl⟩ := ResultColumn.columnsAll_of_resolve _ _ hitems hstar 0 n hn
            rw [Nat.zero_add]
            exact hm

/-- A FROM clause has the spans of the leaves of its source. -/
theorem Source.spansOf_of_resolve (hnamed : NamedAmong os [] scope.namings) :
    (source : Option Source) → (∀ s, source = some s → ∀ p, s.Nests p → p.Sound) →
    (∀ s, source = some s → ∀ t ∈ s.leaves, t.IsLeaf) →
    (source.map Source.occurrences).getD [] ⊆ os →
    Coherent ((source.map Source.pinned).getD []) os →
    (∀ id ∈ (source.map Source.trees).getD [], id ∉ os.map (·.id)) → ∀ clause,
    Source.resolveClause scope source = .ok clause → Fair bare (From.StarsAloneOf clause) →
      Source.HaveSpans scope ((source.map Source.leaves).getD [])
        (From.spansOf bare scope.schema clause)
  | none, _, _, _, _, _, clause, h, _ => by
      cases h
      exact .nil
  | some s, hsound, hleaf, hsubset, hcoherent, htrees, clause, h, hfair => by
      obtain ⟨t, ht, rfl⟩ := map_eq_ok.mp h
      exact Source.spans_of_resolve hnamed s (hsound s rfl) (hleaf s rfl) hsubset hcoherent htrees
        t ht hfair

/-- **The spans of a resolved source are those of its leaves**: by induction over the FROM tree,
where a statement inside it returns what its query promises. -/
theorem Source.spans_of_resolve (hnamed : NamedAmong os [] scope.namings) : (s : Source) →
    (∀ p, s.Nests p → p.Sound) → (∀ t ∈ s.leaves, t.IsLeaf) → s.occurrences ⊆ os →
    Coherent s.pinned os → (∀ id ∈ s.trees, id ∉ os.map (·.id)) → ∀ f,
    s.resolve scope = .ok f → Fair bare f.StarsAlone →
      Source.HaveSpans scope s.leaves (f.spans bare scope.schema)
  | .table id name label, _, _, _, _, _, f, h, _ => by
      rw [Source.resolve] at h
      cases h
      refine .cons ⟨rfl, ?_⟩ .nil
      intro n hn
      show ((scope.schema.columnCount name).toOption) = some n
      rw [show scope.schema.columnCount name = .ok n from hn]
      rfl
  | .subquery id q label, hsound, _, hsubset, hcoherent, htrees, f, h, hfair => by
      rw [Source.resolve] at h
      obtain ⟨statement, hstatement, h⟩ := bind_eq_ok.mp h
      cases pure_eq_ok.mp h
      rw [Source.occurrences] at hsubset
      rw [Source.pinned] at hcoherent
      rw [Source.trees] at htrees
      -- The subquery is written in the scope of the statement that reads it.
      refine .cons ⟨rfl, fun n hn => ?_⟩ .nil
      exact Query.columns_of_resolve hnamed q (hsound q (by rw [Source.Nests]))
        (List.subset_of_cons_subset hsubset) hcoherent htrees statement hstatement hfair n hn
  | .joinTree id left joins, hsound, hleaf, hsubset, hcoherent, htrees, f, h, hfair => by
      simp only [Source.Nests, or_imp, forall_and] at hsound
      rw [Source.occurrences, List.append_subset] at hsubset
      rw [Source.pinned, coherent_append] at hcoherent
      rw [Source.trees, List.forall_mem_cons, List.forall_mem_append] at htrees
      have hleft : left.IsLeaf := hleaf left (List.mem_cons_self ..)
      rw [Source.resolve] at h
      obtain ⟨source, hsource, h⟩ := bind_eq_ok.mp h
      obtain ⟨clauses, hclauses, h⟩ := bind_eq_ok.mp h
      cases pure_eq_ok.mp h
      have hbase := Source.spans_of_resolve hnamed left hsound.1
        (Source.isLeaf_of_mem_leaves hleft) hsubset.1 hcoherent.1
        htrees.2.1 source hsource (hfair.imp fun h => h.1)
      rw [Source.leaves_of_isLeaf hleft] at hbase
      exact hbase.append (Join.spans_of_resolveAll hnamed joins hsound.2
        (fun t ht => hleaf t (List.mem_cons_of_mem _ ht)) hsubset.2 hcoherent.2 htrees.2.2 _ _
        clauses hclauses (hfair.imp fun h => h.2))

theorem Join.spans_of_resolveAll (hnamed : NamedAmong os [] scope.namings) :
    (joins : List Join) → (∀ p, Join.Nests p joins → p.Sound) →
    (∀ t ∈ Join.targets joins, t.IsLeaf) → Join.occurrences joins ⊆ os →
    Coherent (Join.pinned joins) os → (∀ id ∈ Join.trees joins, id ∉ os.map (·.id)) →
    (left : Clauses.Anchor) → (afterOptional : Bool) → ∀ clauses,
    Join.resolveAll scope left afterOptional joins = .ok clauses →
    Fair bare (JoinClause.StarsAloneAll clauses) →
      Source.HaveSpans scope (Join.targets joins) (JoinClause.spansAll bare scope.schema clauses)
  | [], _, _, _, _, _, _, _, clauses, h, _ => by
      rw [Join.resolveAll] at h
      cases h
      exact .nil
  | ⟨_, kind, ⟨_, target, _, condition, selection, joins⟩⟩ :: rest, hsound, hleaf, hsubset,
      hcoherent, htrees, left, _, clauses, h, hfair => by
      simp only [Join.Nests, or_imp, forall_and, forall_exists_index] at hsound
      obtain ⟨htarget, _, _, hjoins, hrest⟩ := hsound
      rw [Join.targets, Relation.targets, List.forall_mem_append, List.forall_mem_cons] at hleaf
      rw [Join.occurrences, List.append_subset, List.append_subset] at hsubset
      rw [Join.pinned, coherent_append, List.cons_append, coherent_cons, coherent_append]
        at hcoherent
      rw [Join.trees, List.forall_mem_append, List.forall_mem_append] at htrees
      obtain ⟨source, on, nested, others, hsource, _, hnested, hothers, rfl⟩ :=
        Join.of_resolveAll_cons h
      rw [List.cons_append, JoinClause.StarsAloneAll, JoinClause.starsAlone_append] at hfair
      -- The sources come in the order of the targets: this one, those below it, and then the rest.
      have hfirst := Source.spans_of_resolve hnamed target htarget
        (Source.isLeaf_of_mem_leaves hleaf.1.1) hsubset.1.1
        hcoherent.1.2.1 htrees.1.1 source hsource (hfair.imp fun h => h.1)
      have hbelow := Join.spans_of_resolveAll hnamed joins hjoins hleaf.1.2 hsubset.1.2
        hcoherent.1.2.2 htrees.1.2 _ _ nested hnested (hfair.imp fun h => h.2.1)
      have hafter := Join.spans_of_resolveAll hnamed rest hrest hleaf.2 hsubset.2 hcoherent.2
        htrees.2 _ _ others hothers (hfair.imp fun h => h.2.2)
      rw [Source.leaves_of_isLeaf hleaf.1.1] at hfirst
      rw [Join.targets, Relation.targets, List.cons_append, List.cons_append, JoinClause.spansAll,
        JoinClause.spansAll_append]
      exact hfirst.append (hbelow.append hafter)

end

end Statements

/-! ## Promised and written columns -/

/-- A scope inside another has the same schema. -/
theorem Scope.schema_of_enter {scope inner : Scope} {os : List Occurrence}
    (h : scope.enter os = .ok inner) : inner.schema = scope.schema := by
  obtain ⟨_, _, h⟩ := bind_eq_ok.mp h
  cases pure_eq_ok.mp h
  rfl

/-- **A written statement returns the columns that were promised, where bare stars stand alone.** Of
every query that building gives, when it compiles and a number of columns is computed for it: the
statement that is written has that many columns if the bare star of an unnamed source is taken for
that source's own. As SQL expands it, to all sources, the statement has them if every such star is
written where its source is the only one. -/
theorem Session.Reachable.columns_eq_width {σ : Session} (hσ : σ.Reachable) {q : Query}
    (hq : .query q ∈ σ.held) {schema : Schema} {sql : BoundSql} (hsql : q.compile schema = .ok sql)
    {n : Nat} (hn : q.width schema = .ok n) :
    ∃ statement, q.statement schema = .ok statement ∧ statement.write.build = .ok sql ∧
      statement.columnsBy Span.first schema = some n ∧
      (statement.StarsAlone → statement.columns schema = some n) := by
  obtain ⟨statement, hstatement, hbuild⟩ := Query.statement_of_compile hsql
  obtain ⟨scope, hscope, hresolve⟩ := bind_eq_ok.mp hstatement
  obtain rfl : scope.schema = schema := Scope.schema_of_enter hscope
  have hsound := hσ.sound hq
  -- One induction serves both readings of the bare star.
  have hcolumns : ∀ bare, Fair bare statement.StarsAlone →
      statement.columnsBy bare scope.schema = some n := fun bare hfair =>
    Query.columns_of_resolve (namedAmong_of_enter .outermost hscope) q hsound
      (fun _ ho => ho) hsound.coherent (hσ.trees_apart hq) statement hresolve hfair n hn
  exact ⟨statement, hstatement, hbuild, hcolumns _ (.inl rfl), fun halone =>
    hcolumns _ (.inr ⟨rfl, halone⟩)⟩

/-- People who are led, with their leaders twice, have nine columns. -/
theorem ledPeople_columns : ∃ sql statement, ledPeople.compile people = .ok sql ∧
    ledPeople.width people = .ok 9 ∧ ledPeople.statement people = .ok statement ∧
    statement.StarsAlone ∧ statement.columns people = some 9 := by
  obtain ⟨σ, hσ, hq⟩ := reachable_ledPeople
  obtain ⟨sql, hsql⟩ : ∃ sql, ledPeople.compile people = .ok sql := exists_ok (by decide +kernel)
  have hwidth : ledPeople.width people = .ok 9 := rfl
  obtain ⟨statement, hstatement, _, _, hcolumns⟩ := hσ.columns_eq_width hq hsql hwidth
  have halone : (ledPeople.statement people).toOption.any (fun s => decide s.StarsAlone) = true :=
    by decide +kernel
  rw [hstatement, Except.toOption, Option.any_some, decide_eq_true_eq] at halone
  exact ⟨sql, statement, hsql, hwidth, hstatement, halone, hcolumns halone⟩

/-- People from a subquery without a name, joined with their leaders. -/
def unnamedLed : Supply Query := do
  let person ← Query.table "persons"
  let inside ← Query.ofQuery person none
  let leader ← Relation.foreignKey "leader" "persons" [("leader_id", "id")]
  inside.joinOptional [leader]

/-- **The bare star of an unnamed root takes in what is joined to it**: three columns are promised,
and six are written. -/
theorem bare_star_widens : ∃ σ : Session, σ.Reachable ∧ .query (unnamedLed.run 0).1 ∈ σ.held ∧
    ∃ sql statement, (unnamedLed.run 0).1.compile people = .ok sql ∧
      (unnamedLed.run 0).1.width people = .ok 3 ∧
      (unnamedLed.run 0).1.statement people = .ok statement ∧
      statement.write.build = .ok sql ∧ statement.columns people = some 6 := by
  -- The query is built step by step, from a table to the join.
  have hperson := Session.Reachable.start.table "persons"
  have hinside := hperson.ofQuery (List.mem_cons_self ..) none
  have hleader := hinside.foreignKey "leader" "persons" [("leader_id", "id")]
  have hall := hleader.attach (List.mem_cons_of_mem _ (List.mem_cons_self ..)) .left false [_]
    (List.forall_mem_singleton.mpr (List.mem_cons_self ..))
  obtain ⟨sql, hsql⟩ : ∃ sql, (unnamedLed.run 0).1.compile people = .ok sql :=
    exists_ok (by decide +kernel)
  obtain ⟨statement, hstatement, hbuild⟩ := Query.statement_of_compile hsql
  have hcomputed : ((unnamedLed.run 0).1.statement people).toOption.map
      (Statement.columns people) = some (some 6) := by
    decide +kernel
  rw [hstatement] at hcomputed
  exact ⟨_, hall, List.mem_cons_self .., sql, statement, hsql, rfl, hstatement,
    hbuild, Option.some.inj hcomputed⟩

end RelationalQuery
