/-
  RelationalQuery.Proofs.Execution.CountStatement — the statements that counting queries are written
  as.

  A query that is counted in place reads one table, and the counting query has the same FROM clause
  and so the same names: its statement has the clauses of the first, behind another select list.
  Every other query is counted as an unnamed source, inside which it is written as it was. Either
  way the ordering is gone, and nothing is added that could fail.

  Main definition:
    * `Query.countsValues`: the query is counted by distinct values.

  Main statements:
    * `Query.statement_counted`: the statement over the same clauses.
    * `Query.statement_from_outside`: the statement around an unnamed source.
-/

import RelationalQuery.Proofs.Building.Clauses
import RelationalQuery.Proofs.Execution.Bindings
import RelationalQuery.Proofs.Execution.Counting
import RelationalQuery.Proofs.Execution.Enclosure

namespace RelationalQuery

open Sql Fragment

/-- The statement with an aggregate in place of what it selects, and without an ordering. -/
def Sql.Statement.counting (s : Statement) (t : Term) : Statement :=
  { Statement.aggregate t s.source s.filter with having := s.having }

/-! ## Shapes -/

namespace Query

/-- The query is counted by the distinct values of its one expression. -/
def countsValues (q : Query) : Bool := q.countedInPlace?.isSome && q.distinct

variable {q counting : Query}

/-- What is counted in place reads a table, without groups and without limit. Its rows are counted,
or the distinct values of its only expression. -/
theorem of_countedInPlace? (h : q.countedInPlace? = some counting) :
    ∃ id table label, q.source = some (.table id table label) ∧ q.groupBy = [] ∧ q.limit = none ∧
      ((q.distinct = false ∧ counting = q.unordered.countInPlace id) ∨
        (q.distinct = true ∧ ∃ column e, q.selection = [column] ∧ column.expr? = some e ∧
          counting = q.unordered.countDistinctInPlace e)) := by
  obtain ⟨selection, distinct, source, filter, groupBy, having, orderings, reversed, limit⟩ := q
  unfold countedInPlace? at h
  split at h
  · rename_i hkeeps
    obtain ⟨hgroups, hlimit⟩ := Bool.and_eq_true_iff.mp hkeeps
    rw [List.isEmpty_iff] at hgroups
    rw [Option.isNone_iff_eq_none] at hlimit
    obtain ⟨id, htable, hshape⟩ := Option.bind_eq_some_iff.mp h
    unfold table? at htable
    split at htable
    · rename_i other table label hsource
      cases htable
      refine ⟨id, table, label, hsource, hgroups, hlimit, ?_⟩
      unfold countInPlace? at hshape
      cases distinct with
      | false =>
          -- Rows are counted, unless the list is empty or a star of another source.
          refine Or.inl ⟨rfl, ?_⟩
          split at hshape
          · cases hshape
          · split at hshape
            · exact (Option.some.inj hshape).symm
            · cases hshape
          · exact (Option.some.inj hshape).symm
          · exact (Option.some.inj hshape).symm
          · exact (Option.some.inj hshape).symm
      | true =>
          -- Distinct values can be counted of one expression only.
          refine Or.inr ⟨rfl, ?_⟩
          split at hshape
          · cases hshape
          · rw [if_neg (by simp [unordered])] at hshape
            cases hshape
          · rename_i e hselection
            exact ⟨_, e, hselection, rfl, (Option.some.inj hshape).symm⟩
          · rename_i e label hselection
            exact ⟨_, e, hselection, rfl, (Option.some.inj hshape).symm⟩
          · cases hshape
    · cases htable
  · cases h

end Query

/-! ## Trees, clause by clause -/

namespace Query

variable {scope : Scope} {q : Query} {s : Statement}

/-- Without its ordering a query resolves to the statement without its ordering. -/
theorem Resolution.unordered (h : q.Resolution scope s) :
    q.unordered.Resolution scope s.unordered :=
  ⟨h.distinct, h.items, h.source, h.filter, h.groupBy, h.having, ⟨[], rfl, rfl⟩, h.limit⟩

/-- A column with an expression resolves to an item with the expression's term. -/
theorem resolve_of_expr? {column : ResultColumn} {e : Expr} (he : column.expr? = some e)
    {item : Item} (h : column.resolve scope = .ok item) :
    ∃ t, e.resolve scope false = .ok t ∧ item.term? = some t := by
  cases column with
  | star id => cases he
  | expr own =>
      cases he
      rw [ResultColumn.resolve] at h
      obtain ⟨t, ht, h⟩ := bind_eq_ok.mp h
      cases pure_eq_ok.mp h
      exact ⟨t, ht, rfl⟩
  | aliased own label =>
      cases he
      rw [ResultColumn.resolve] at h
      obtain ⟨t, ht, h⟩ := bind_eq_ok.mp h
      cases pure_eq_ok.mp h
      exact ⟨t, ht, rfl⟩

/-- The items of a list that is not read as a whole are its own ones and the added ones. -/
theorem itemsOf_own {own added : Except QueryError (List Item)} {a b : List Item} :
    itemsOf false own added = .ok (a, b) ↔ own = .ok a ∧ added = .ok b := by
  constructor
  · intro h
    obtain ⟨own, hown, h⟩ := bind_eq_ok.mp h
    obtain ⟨added, hadded, h⟩ := bind_eq_ok.mp h
    obtain ⟨rfl, rfl⟩ := Prod.mk.inj (pure_eq_ok.mp h)
    exact ⟨hown, hadded⟩
  · rintro ⟨rfl, rfl⟩
    rfl

/-! ## Counting in place -/

section InPlace

variable {id : SourceId} {table : String} {label : Option Alias}

/-- A query over one table adds no columns of relations. -/
theorem Resolution.added_eq_nil (h : q.Resolution scope s)
    (hsource : q.source = some (.table id table label)) : s.added = [] := by
  have hitems := h.items
  rw [hsource] at hitems
  cases hwhole : Clauses.readsWhole q.selection (some (.table id table label)) with
  | true =>
      rw [hwhole, itemsOf, if_pos rfl] at hitems
      exact (Prod.mk.inj (Except.ok.inj hitems)).2.symm
  | false =>
      rw [hwhole] at hitems
      exact (Except.ok.inj (itemsOf_own.mp hitems).2).symm

/-- The entry of a query that selects one expression. -/
theorem Resolution.single (h : q.Resolution scope s)
    (hsource : q.source = some (.table id table label)) {column : ResultColumn} {e : Expr}
    (hselection : q.selection = [column]) (hcolumn : column.expr? = some e) :
    ∃ item t, s.items = [item] ∧ item.term? = some t ∧ e.resolve scope false = .ok t := by
  have hitems := h.items
  -- A select list is read as a whole only if it is a star.
  have hwhole : Clauses.readsWhole [column] (some (.table id table label)) = false := by
    cases column with
    | star id => cases hcolumn
    | expr own => rfl
    | aliased own label => rfl
  rw [hsource, hselection, hwhole] at hitems
  obtain ⟨hown, _⟩ := itemsOf_own.mp hitems
  rw [ResultColumn.resolveAll, ResultColumn.resolveAll] at hown
  obtain ⟨item, hitem, hown⟩ := bind_eq_ok.mp hown
  obtain ⟨t, ht, hterm⟩ := resolve_of_expr? hcolumn hitem
  exact ⟨item, t, (pure_eq_ok.mp hown).symm, hterm, ht⟩

/-- Another select list over the clauses of a query that reads one table. -/
theorem Resolution.aggregate (h : q.Resolution scope s)
    (hsource : q.source = some (.table id table label)) (hgroupBy : s.groupBy = [])
    (hlimit : s.limit = none) {e : Expr} {t : Term} (ht : e.resolve scope false = .ok t) :
    ({ q.unordered with distinct := false, selection := [.expr e] } : Query).Resolution scope
      (s.counting t) where
  distinct := rfl
  items := by
    rw [show ({ q.unordered with distinct := false, selection := [.expr e] } : Query).source =
      some (.table id table label) from hsource]
    refine itemsOf_own.mpr ⟨?_, rfl⟩
    rw [ResultColumn.resolveAll, ResultColumn.resolveAll, ResultColumn.resolve, ht]
    rfl
  source := h.source
  filter := h.filter
  groupBy := h.groupBy.trans (congrArg Except.ok hgroupBy)
  having := h.having
  orderings := ⟨[], rfl, rfl⟩
  limit := hlimit.symm.trans h.limit

end InPlace

end Query

/-- A query that reads what another reads is resolved with the same names. -/
theorem Query.Resolution.statement {schema : Schema} {scope : Scope} {p q : Query} {s : Statement}
    (h : p.Resolution scope s) (hsource : p.source = q.source)
    (hscope : (Scope.outermost schema).enter q.occurrences = .ok scope) :
    p.statement schema = .ok s := by
  refine bind_eq_ok.mpr ⟨scope, ?_, Query.resolve_eq_ok.mpr h⟩
  rw [← hscope, Query.occurrences_eq, Query.occurrences_eq, hsource]

/-- The table of a query has a name in the scope of its statement. -/
theorem Scope.name_of_table {schema : Schema} {scope : Scope} {q : Query} {id : SourceId}
    {table : String} {label : Option Alias} (hsource : q.source = some (.table id table label))
    (h : (Scope.outermost schema).enter q.occurrences = .ok scope) (column : String) :
    ∃ name, scope.name id column = .ok name := by
  have hmem : id ∈ q.occurrences.map (·.id) := by
    rw [Query.occurrences_eq, hsource]
    exact List.mem_cons_self ..
  obtain ⟨naming, hnaming, h⟩ := bind_eq_ok.mp h
  cases pure_eq_ok.mp h
  obtain ⟨name, hname⟩ :=
    Option.isSome_iff_exists.mp ((Naming.mem_ids_of_lookup hnaming).mpr hmem)
  refine ⟨name, ?_⟩
  unfold Scope.name Scope.find?
  rw [List.findSome?_cons, hname]

/-- **The statement of a query that is counted in place**: the clauses of the first statement, but
for its ordering, behind an aggregate over the rows, or over the values of the only expression. -/
theorem Query.statement_counted {schema : Schema} {q counting : Query} {s : Statement}
    (hs : q.statement schema = .ok s) (hcounting : q.countedInPlace? = some counting) :
    s.groupBy = [] ∧ s.limit = none ∧ s.added = [] ∧
      ((q.distinct = false ∧ s.distinct = false ∧ ∃ id, counting.statement schema =
          .ok (s.counting (.countRows id))) ∨
        (q.distinct = true ∧ s.distinct = true ∧ ∃ item t, s.items = [item] ∧
          item.term? = some t ∧ counting.statement schema = .ok (s.counting (.countDistinct t)))) := by
  obtain ⟨scope, hscope, hresolve⟩ := bind_eq_ok.mp hs
  have h := Query.resolve_eq_ok.mp hresolve
  obtain ⟨id, table, label, hsource, hkeys, hlimit, hshape⟩ := Query.of_countedInPlace? hcounting
  have hunlimited : s.limit = none := h.limit.trans hlimit
  have hungrouped : s.groupBy = [] := by
    have hgroups := h.groupBy
    rw [hkeys] at hgroups
    exact (Except.ok.inj hgroups).symm
  refine ⟨hungrouped, hunlimited, h.added_eq_nil hsource, ?_⟩
  rcases hshape with ⟨hdistinct, rfl⟩ | ⟨hdistinct, column, e, hselection, hcolumn, rfl⟩
  · refine Or.inl ⟨hdistinct, h.distinct.trans hdistinct, id, ?_⟩
    -- The star in the count is that of the table, which the scope knows.
    obtain ⟨name, hname⟩ := Scope.name_of_table hsource hscope "*"
    refine (h.aggregate hsource hungrouped hunlimited ?_).statement
      (show _ = q.source from rfl) hscope
    rw [Expr.resolve, ResultColumn.resolveCounted, hname]
    rfl
  · obtain ⟨item, t, hitems, hterm, ht⟩ := h.single hsource hselection hcolumn
    refine Or.inr ⟨hdistinct, h.distinct.trans hdistinct, item, t, hitems, hterm, ?_⟩
    refine (h.aggregate hsource hungrouped hunlimited ?_).statement
      (show _ = q.source from rfl) hscope
    rw [Expr.resolve, ht]
    rfl

/-- Without a condition on groups, the statement that counts has no clause but the rows'. -/
theorem Query.statement_in_place {schema : Schema} {q counting : Query} {s : Statement}
    (hs : q.statement schema = .ok s) (hcounting : q.countedInPlace? = some counting)
    (hhaving : s.having = none) :
    s.limit = none ∧ s.added = [] ∧
      ((q.distinct = false ∧ s.distinct = false ∧ ∃ id, counting.statement schema =
          .ok (Statement.aggregate (.countRows id) s.source s.filter)) ∨
        (q.distinct = true ∧ s.distinct = true ∧ ∃ item t, s.items = [item] ∧
          item.term? = some t ∧ counting.statement schema =
            .ok (Statement.aggregate (.countDistinct t) s.source s.filter))) := by
  have hcounted : ∀ t, s.counting t = Statement.aggregate t s.source s.filter := by
    intro t
    rw [Statement.counting, hhaving]
    rfl
  simpa only [hcounted] using (Query.statement_counted hs hcounting).2

/-! ## Counting from outside -/

/-- **The statement of a query that is counted from outside**: the first statement, without its
ordering, as an unnamed source. -/
theorem Query.statement_from_outside {schema : Schema} {q : Query} {s : Statement}
    (hs : q.statement schema = .ok s) {next : Nat}
    (hnext : ⟨next⟩ ∉ q.occurrences.map (·.id)) :
    ∃ occurrence, (q.unordered.countFromOutside.run next).1.statement schema =
      .ok (Statement.aggregate (.countRows ⟨next⟩) (some (.query occurrence s.unordered none))
        none) := by
  obtain ⟨scope, hscope, hresolve⟩ := bind_eq_ok.mp hs
  let o : Occurrence := (Source.subquery ⟨next⟩ q.unordered none).occurrence
  -- The new source is unnamed, so all names inside stay what they were.
  obtain ⟨other, hother, hextends, hfound⟩ := Scope.enter_unnamed (o := o) rfl hnext hscope
  have hfound : other.find? ⟨next⟩ = some none := hfound
  have hsources : (q.unordered.countFromOutside.run next).1.occurrences = o :: q.occurrences := by
    rw [Query.occurrences_eq, Query.occurrences_eq]
    show (Source.subquery ⟨next⟩ q.unordered none).occurrences = _
    rw [Source.occurrences, Query.occurrences_eq]
    rfl
  refine ⟨o, bind_eq_ok.mpr ⟨other, by rw [hsources]; exact hother,
    Query.resolve_eq_ok.mpr ?_⟩⟩
  have hinner : q.unordered.resolve other = .ok s.unordered :=
    Query.resolve_kept hextends _ _
      (Query.resolve_eq_ok.mpr (Query.resolve_eq_ok.mp hresolve).unordered)
  -- A star of an unnamed source is written without a qualifier.
  have hname : other.name ⟨next⟩ "*" = .ok none := by
    rw [Scope.name, hfound]
  refine ⟨rfl, ?_, ?_, rfl, rfl, rfl, ⟨[], rfl, rfl⟩, rfl⟩
  · refine Query.itemsOf_own.mpr ⟨?_, rfl⟩
    show ResultColumn.resolveAll other [.expr (.count (.star ⟨next⟩))] = _
    rw [ResultColumn.resolveAll, ResultColumn.resolveAll, ResultColumn.resolve, Expr.resolve,
      ResultColumn.resolveCounted, hname]
    rfl
  · show Source.resolveClause other (some (.subquery ⟨next⟩ q.unordered none)) = _
    rw [Source.resolveClause, Source.resolve, hinner, Scope.name?, hfound]
    rfl

end RelationalQuery
