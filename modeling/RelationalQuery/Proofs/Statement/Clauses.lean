/-
  RelationalQuery.Proofs.Statement.Clauses — what comes of a query, clause by clause.

  A query is resolved, and rendered, in one pass over its clauses, and a join in one pass over its
  parts; each pass succeeds when all of its steps do. Here the passes are turned around, once for
  all: from what came of a query, to what came of each of its clauses.

  Main definition:
    * `Query.Resolution`: a query and its tree, clause by clause.

  Main statements:
    * `Query.resolve_eq_ok`, `Join.of_resolveAll_cons`: the parts of a tree.
    * `Query.of_render`, `Join.of_renderAll_cons`: the parts of a text.
-/

import RelationalQuery.Proofs.Outcome
import RelationalQuery.Proofs.Statement.Resolution

namespace RelationalQuery

open Sql Fragment

variable {scope : Scope}

/-! ## Trees -/

/-- The tree of a query, clause by clause. -/
structure Query.Resolution (scope : Scope) (q : Query) (s : Statement) : Prop where
  distinct : s.distinct = q.distinct
  items : itemsOf (Clauses.readsWhole q.selection q.source)
    (ResultColumn.resolveAll scope q.selection) (Source.resolveColumns scope q.source) =
      .ok (s.items, s.added)
  source : Source.resolveClause scope q.source = .ok s.source
  filter : Expr.resolveClause scope q.filter = .ok s.filter
  groupBy : Expr.resolveAll scope q.groupBy = .ok s.groupBy
  having : Expr.resolveClause scope q.having = .ok s.having
  orderings : ∃ terms, OrderingTerm.resolveAll scope q.reversed q.orderings = .ok terms ∧
    s.orderings =
      if terms.isEmpty && q.reversed then SortTerm.reverseRowIds scope q.source else terms
  limit : s.limit = q.limit

/-- A query resolves to a statement just when each clause of it does. -/
theorem Query.resolve_eq_ok {q : Query} {s : Statement} :
    q.resolve scope = .ok s ↔ q.Resolution scope s := by
  obtain ⟨selection, distinct, source, filter, groupBy, having, orderings, reversed, limit⟩ := q
  rw [Query.resolve]
  constructor
  · intro h
    obtain ⟨columns, hcolumns, h⟩ := bind_eq_ok.mp h
    obtain ⟨clause, hclause, h⟩ := bind_eq_ok.mp h
    obtain ⟨rows, hrows, h⟩ := bind_eq_ok.mp h
    obtain ⟨groups, hgroups, h⟩ := bind_eq_ok.mp h
    obtain ⟨groupRows, hgroupRows, h⟩ := bind_eq_ok.mp h
    obtain ⟨terms, hterms, h⟩ := bind_eq_ok.mp h
    cases pure_eq_ok.mp h
    exact ⟨rfl, hcolumns, hclause, hrows, hgroups, hgroupRows, ⟨terms, hterms, rfl⟩, rfl⟩
  · rintro ⟨hdistinct, hitems, hsource, hfilter, hgroupBy, hhaving, ⟨terms, hterms, horderings⟩,
      hlimit⟩
    -- Every step succeeds with the clause that the tree has.
    refine bind_eq_ok.mpr ⟨_, hitems, ?_⟩
    refine bind_eq_ok.mpr ⟨_, hsource, ?_⟩
    refine bind_eq_ok.mpr ⟨_, hfilter, ?_⟩
    refine bind_eq_ok.mpr ⟨_, hgroupBy, ?_⟩
    refine bind_eq_ok.mpr ⟨_, hhaving, ?_⟩
    refine bind_eq_ok.mpr ⟨_, hterms, ?_⟩
    refine pure_eq_ok.mpr ?_
    obtain ⟨_, _, _, _, _, _, _, _, _⟩ := s
    cases hdistinct
    cases hlimit
    cases horderings
    rfl

/-! ## Texts -/

/-- The text of a query: its clauses one behind the other, each rendered by itself. -/
theorem Query.of_render {q : Query} {f : Fragment} (h : q.render scope = .ok f) :
    ∃ columns sources rows groups groupRows terms,
      Clauses.selectList (Clauses.readsWhole q.selection q.source)
        (ResultColumn.renderAll scope q.selection) (Source.renderColumns scope q.source) =
          .ok columns ∧
      Source.renderClause scope q.source = .ok sources ∧
      Expr.renderClause scope .where q.filter = .ok rows ∧
      Expr.renderAll scope q.groupBy = .ok groups ∧
      Expr.renderClause scope .having q.having = .ok groupRows ∧
      OrderingTerm.renderAll scope q.reversed q.orderings = .ok terms ∧
      f = token .select ++ (if q.distinct then token .distinct else Fragment.empty) ++ columns ++
        sources ++ rows ++ Clauses.clause [.group, .by] groups ++ groupRows ++
        Clauses.orderClause scope q.source q.reversed terms ++ Clauses.limitClause q.limit := by
  obtain ⟨selection, distinct, source, filter, groupBy, having, orderings, reversed, limit⟩ := q
  obtain ⟨columns, hcolumns, h⟩ := bind_eq_ok.mp h
  obtain ⟨sources, hsources, h⟩ := bind_eq_ok.mp h
  obtain ⟨rows, hrows, h⟩ := bind_eq_ok.mp h
  obtain ⟨groups, hgroups, h⟩ := bind_eq_ok.mp h
  obtain ⟨groupRows, hgroupRows, h⟩ := bind_eq_ok.mp h
  obtain ⟨terms, hterms, h⟩ := bind_eq_ok.mp h
  exact ⟨columns, sources, rows, groups, groupRows, terms, hcolumns, hsources, hrows, hgroups,
    hgroupRows, hterms, (pure_eq_ok.mp h).symm⟩

namespace Clauses

variable {f : Fragment}

/-- A term of a mapping is an equality of a column of the target and one of the left side. -/
theorem of_mem_mappingTerms {left right : SourceId} : (mapping : List (String × String)) →
    ∀ fs, mappingTerms scope left right mapping = .ok fs → ∀ f ∈ fs,
      ∃ targetColumn target sourceColumn source, columnOf scope right targetColumn = .ok target ∧
        columnOf scope left sourceColumn = .ok source ∧ f = target ++ token .equal ++ source
  | [], fs, h => by
      cases h
      exact List.forall_mem_nil _
  | (leftColumn, rightColumn) :: rest, fs, h => by
      obtain ⟨target, htarget, h⟩ := bind_eq_ok.mp h
      obtain ⟨source, hsource, h⟩ := bind_eq_ok.mp h
      obtain ⟨others, hothers, h⟩ := bind_eq_ok.mp h
      rw [← pure_eq_ok.mp h]
      exact List.forall_mem_cons.mpr ⟨⟨rightColumn, target, leftColumn, source, htarget, hsource,
        rfl⟩, of_mem_mappingTerms rest others hothers⟩

/-- The condition of a join has the terms of its mapping and its own, or there is none. -/
theorem of_onClause {kind : JoinKind} {mapped own : Except QueryError (List Fragment)}
    (h : onClause kind mapped own = .ok f) :
    f = empty ∨ ∃ equalities terms, mapped = .ok equalities ∧ own = .ok terms ∧
      equalities ++ terms ≠ [] ∧ f = token .on ++ joinWith .and (equalities ++ terms) := by
  -- Joins of the two kinds that have a condition are rendered alike.
  have hon : (do
      let terms := (← mapped) ++ (← own)
      return if terms.isEmpty then empty else token .on ++ joinWith .and terms) = Except.ok f →
      f = empty ∨ ∃ equalities terms, mapped = .ok equalities ∧ own = .ok terms ∧
        equalities ++ terms ≠ [] ∧ f = token .on ++ joinWith .and (equalities ++ terms) := by
    intro h
    obtain ⟨equalities, hequalities, h⟩ := bind_eq_ok.mp h
    obtain ⟨terms, hterms, h⟩ := bind_eq_ok.mp h
    obtain rfl := pure_eq_ok.mp h
    split
    · exact .inl rfl
    · rename_i hsome
      exact .inr ⟨equalities, terms, hequalities, hterms, fun hnil => hsome (hnil ▸ rfl), rfl⟩
  cases kind with
  | cross => exact .inl (Except.ok.inj h).symm
  | inner => exact hon h
  | left => exact hon h

end Clauses

/-! ## Joins -/

section Joins

variable {left : Clauses.Anchor} {afterOptional included : Bool} {kind : JoinKind} {name : String}
  {target : Source} {mapping : List (String × String)}
  {condition : SourceId → SourceId → List Expr} {selection : SourceId → List ResultColumn}
  {joins rest : List Join}

/-- What one join is resolved to. -/
theorem Join.of_resolveAll_cons {clauses : List JoinClause}
    (h : Join.resolveAll scope left afterOptional
      (⟨included, kind, ⟨name, target, mapping, condition, selection, joins⟩⟩ :: rest) =
        .ok clauses) :
    ∃ source on nested others, target.resolve scope = .ok source ∧
      conditionOf kind (Equality.resolveAll scope left.id target.id mapping)
        (Expr.resolveAll scope (condition left.id target.id)) = .ok on ∧
      Join.resolveAll scope (Clauses.anchor target)
        (afterOptional || decide (kind = .left)) joins = .ok nested ∧
      Join.resolveAll scope left afterOptional rest = .ok others ∧
      clauses = ⟨kind, source, on.1, on.2⟩ :: nested ++ others := by
  rw [Join.resolveAll] at h
  obtain ⟨_, _, h⟩ := bind_eq_ok.mp h
  obtain ⟨_, _, h⟩ := bind_eq_ok.mp h
  obtain ⟨source, hsource, h⟩ := bind_eq_ok.mp h
  obtain ⟨on, hon, h⟩ := bind_eq_ok.mp h
  obtain ⟨nested, hnested, h⟩ := bind_eq_ok.mp h
  obtain ⟨others, hothers, h⟩ := bind_eq_ok.mp h
  exact ⟨source, on, nested, others, hsource, hon, hnested, hothers, (pure_eq_ok.mp h).symm⟩

/-- What one join adds to a select list. -/
theorem Join.of_resolveColumns_cons {items : List Item}
    (h : Join.resolveColumns scope
      (⟨included, kind, ⟨name, target, mapping, condition, selection, joins⟩⟩ :: rest) =
        .ok items) :
    ∃ own nested others,
      (if included then ResultColumn.resolveAll scope (selection target.id) else .ok []) = .ok own ∧
      Join.resolveColumns scope joins = .ok nested ∧ Join.resolveColumns scope rest = .ok others ∧
      items = own ++ nested ++ others := by
  rw [Join.resolveColumns] at h
  obtain ⟨own, hown, h⟩ := bind_eq_ok.mp h
  obtain ⟨nested, hnested, h⟩ := bind_eq_ok.mp h
  obtain ⟨others, hothers, h⟩ := bind_eq_ok.mp h
  exact ⟨own, nested, others, hown, hnested, hothers, (pure_eq_ok.mp h).symm⟩

/-- What one join is rendered as. -/
theorem Join.of_renderAll_cons {f : Fragment}
    (h : Join.renderAll scope left afterOptional
      (⟨included, kind, ⟨name, target, mapping, condition, selection, joins⟩⟩ :: rest) = .ok f) :
    ∃ source on nested others, target.render scope = .ok source ∧
      Clauses.onClause kind (Clauses.mappingTerms scope left.id target.id mapping)
        (Expr.renderAll scope (condition left.id target.id)) = .ok on ∧
      Join.renderAll scope (Clauses.anchor target)
        (afterOptional || decide (kind = .left)) joins = .ok nested ∧
      Join.renderAll scope left afterOptional rest = .ok others ∧
      f = Clauses.joinKeyword kind ++ source ++ on ++ nested ++ others := by
  obtain ⟨_, _, h⟩ := bind_eq_ok.mp h
  obtain ⟨_, _, h⟩ := bind_eq_ok.mp h
  obtain ⟨source, hsource, h⟩ := bind_eq_ok.mp h
  obtain ⟨on, hon, h⟩ := bind_eq_ok.mp h
  obtain ⟨nested, hnested, h⟩ := bind_eq_ok.mp h
  obtain ⟨others, hothers, h⟩ := bind_eq_ok.mp h
  exact ⟨source, on, nested, others, hsource, hon, hnested, hothers, (pure_eq_ok.mp h).symm⟩

/-- What one join adds to a select list, rendered. -/
theorem Join.of_renderColumns_cons {fs : List Fragment}
    (h : Join.renderColumns scope
      (⟨included, kind, ⟨name, target, mapping, condition, selection, joins⟩⟩ :: rest) = .ok fs) :
    ∃ own nested others,
      (if included then ResultColumn.renderAll scope (selection target.id) else .ok []) = .ok own ∧
      Join.renderColumns scope joins = .ok nested ∧ Join.renderColumns scope rest = .ok others ∧
      fs = own ++ nested ++ others := by
  rw [Join.renderColumns] at h
  -- Whatever the relation itself adds, what follows it is the same.
  have hafter : ∀ own, (do
      let nested ← Join.renderColumns scope joins
      let rest ← Join.renderColumns scope rest
      return own ++ nested ++ rest) = Except.ok fs →
      ∃ nested others, Join.renderColumns scope joins = .ok nested ∧
        Join.renderColumns scope rest = .ok others ∧ fs = own ++ nested ++ others := by
    intro own h
    obtain ⟨nested, hnested, h⟩ := bind_eq_ok.mp h
    obtain ⟨others, hothers, h⟩ := bind_eq_ok.mp h
    exact ⟨nested, others, hnested, hothers, (pure_eq_ok.mp h).symm⟩
  cases included with
  | false =>
      obtain ⟨nested, others, h⟩ := hafter [] h
      exact ⟨[], nested, others, rfl, h⟩
  | true =>
      obtain ⟨own, hown, h⟩ := bind_eq_ok.mp h
      obtain ⟨nested, others, h⟩ := hafter own h
      exact ⟨own, nested, others, hown, h⟩

end Joins

end RelationalQuery
