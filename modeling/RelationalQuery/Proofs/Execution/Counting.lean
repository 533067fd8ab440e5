/-
  RelationalQuery.Proofs.Execution.Counting — statements that count the rows of another.

  A statement can be counted over its own clauses, by another select list. That is right where each
  row that the filter leaves gives one row of the result: without groups, without limit, and with
  repeated rows kept. Where one expression is selected and repeated rows are dropped, its distinct
  values are the rows of the result, but for NULL. Any statement can be counted from outside, as
  the only source of the counting one.

  Main statements:
    * `Sql.Statement.count_in_place`, `Sql.Statement.count_values_in_place`: over the same clauses.
    * `Sql.Statement.count_from_outside`: as a source.
-/

import RelationalQuery.Proofs.Execution.Rows

namespace RelationalQuery.Sql

variable {Cell : Type} {engine : Engine Cell} {database : Database Cell}
  {outer : List (Frame Cell)}

/-- A single row with a single cell, as counting gives it. -/
def Table.IsCount (engine : Engine Cell) (table : Table Cell) (n : Nat) : Prop :=
  table.rows = [[engine.count n]]

/-- An aggregate over rows is evaluated in each of them. -/
theorem Context.members_of_group (first : Frame Cell) (rows : List (Frame Cell)) :
    Context.members ⟨first :: outer, some rows⟩ = some (rows.map (.ofRow outer)) := rfl

/-- Counting the rows that the filter leaves. -/
theorem Statement.eval_countRows (id : SourceId) {source : Option From} {filter : Option Term}
    {read : Joined Cell} (hread : From.evalClause engine database outer source = some read)
    {kept : List (Frame Cell)}
    (hkept : keep (fun row => Term.holds engine database (.ofRow outer row) filter) read.rows =
      some kept) :
    ∃ counted, (Statement.aggregate (.countRows id) source filter).eval engine database outer =
      some counted ∧ counted.IsCount engine kept.length := by
  -- All rows that the filter leaves are in one group.
  have hcell : (Term.countRows id).eval engine database
      ⟨kept.headD read.blank :: outer, some kept⟩ = some (engine.count kept.length) := by
    rw [Term.eval, Context.members_of_group]
    show some (engine.count (kept.map _).length) = _
    rw [List.length_map]
  obtain ⟨names, h⟩ := Statement.eval_aggregate (by rw [Term.aggregates]) hread hkept hcell
  exact ⟨_, h, rfl⟩

/-- **Counting in place**: without groups, repeated rows dropped or a limit, the rows that the
filter leaves are as many as the rows of the result. -/
theorem Statement.count_in_place {s : Statement} (hplain : s.grouped engine = false)
    (hdistinct : s.distinct = false) (hlimit : s.limit = none) {table : Table Cell}
    (h : s.eval engine database outer = some table) (id : SourceId) :
    ∃ counted, (Statement.aggregate (.countRows id) s.source s.filter).eval engine database outer =
      some counted ∧ counted.IsCount engine table.rows.length := by
  obtain ⟨read, kept, results, hread, hkept, hresults, hrows⟩ :=
    Statement.rows_of_plain hplain hlimit h
  have hlength : table.rows.length = kept.length := by
    rw [hrows.length_eq, hdistinct, deduplicated, if_neg Bool.false_ne_true, List.length_map,
      length_of_mapM hresults]
  rw [hlength]
  exact Statement.eval_countRows id hread hkept

/-- The expression that an entry of a select list is, unless it is a star. -/
def Item.term? : Item → Option Term
  | .everything | .star _ => none
  | .term t | .aliased t _ => some t

/-- An item with a term gives the one cell that its term gives. -/
theorem Item.eval_of_term? {item : Item} {t : Term} (h : item.term? = some t) (c : Context Cell) :
    item.eval engine database c = (t.eval engine database c).map fun cell => [cell] := by
  cases item with
  | everything => cases h
  | star r => cases h
  | term u =>
      cases h
      rw [Item.eval]
      cases t.eval engine database c <;> rfl
  | aliased u label =>
      cases h
      rw [Item.eval]
      cases t.eval engine database c <;> rfl

/-- A select list of one expression gives one cell. -/
theorem Statement.cells_of_single {s : Statement} {item : Item} {t : Term}
    (hitems : s.items = [item]) (ht : item.term? = some t) (hadded : s.added = [])
    {blank : Frame Cell} {c : Context Cell} {r : Result Cell}
    (hr : s.result engine database blank c = some r) :
    ∃ cell, t.eval engine database c = some cell ∧ r.cells = [cell] := by
  obtain ⟨own, added, hown, hmore, hcells, _⟩ := Statement.result_eq_some.mp hr
  rw [hadded, Item.evalAll] at hmore
  cases hmore
  rw [hitems, Item.evalAll, Item.evalAll, Item.eval_of_term? ht] at hown
  obtain ⟨cells, hsingle, hown⟩ := Option.bind_eq_some_iff.mp hown
  obtain ⟨cell, hcell, rfl⟩ := Option.map_eq_some_iff.mp hsingle
  cases hown
  exact ⟨cell, hcell, hcells⟩

/-- The row has no NULL. -/
def Engine.knownRow (engine : Engine Cell) (row : List Cell) : Bool :=
  row.all fun cell => !engine.isNull cell

/-- The distinct known values of a column are its distinct rows without NULL. -/
theorem Engine.length_distinct_known (cells : List Cell) :
    (distinctBy engine.same (engine.known cells)).length =
      ((distinctBy engine.sameRow (cells.map fun cell => [cell])).filter
        engine.knownRow).length := by
  have hsame : (fun a b : Cell => engine.sameRow [a] [b]) = engine.same := by
    funext a b
    exact Bool.and_true _
  have hknown : (engine.knownRow ∘ fun cell => [cell]) = fun cell => !engine.isNull cell := by
    funext cell
    exact Bool.and_true _
  rw [distinctBy_map, hsame, List.filter_map, List.length_map, hknown, Engine.known,
    distinctBy_filter fun a b h => by rw [engine.isNull_of_same a b h]]

/-- **Counting distinct values in place**: where one expression is selected and repeated rows are
dropped, its distinct values are as many as the rows without NULL. -/
theorem Statement.count_values_in_place {s : Statement} (hplain : s.grouped engine = false)
    (hdistinct : s.distinct = true) (hlimit : s.limit = none) {item : Item} {t : Term}
    (hitems : s.items = [item]) (ht : item.term? = some t) (hadded : s.added = [])
    {table : Table Cell} (h : s.eval engine database outer = some table) :
    ∃ counted, (Statement.aggregate (.countDistinct t) s.source s.filter).eval engine database
        outer = some counted ∧
      counted.IsCount engine (table.rows.filter engine.knownRow).length := by
  obtain ⟨read, kept, results, hread, hkept, hresults, hrows⟩ :=
    Statement.rows_of_plain hplain hlimit h
  -- Each row of the result is the one value of the expression.
  obtain ⟨cells, hcells, hvalues⟩ : ∃ cells,
      kept.mapM (fun row => t.eval engine database (.ofRow outer row)) = some cells ∧
        results.map (·.cells) = cells.map fun cell => [cell] :=
    exists_mapM (fun row r hr => Statement.cells_of_single hitems ht hadded hr) hresults
  have hcell : (Term.countDistinct t).eval engine database
      ⟨kept.headD read.blank :: outer, some kept⟩ =
      some (engine.count (distinctBy engine.same (engine.known cells)).length) := by
    rw [mapM_eq_some] at hcells
    have hmembers : (kept.map (Context.ofRow outer)).mapM (fun member => t.eval engine database
        member) = some cells := by
      rw [mapM_eq_some, List.map_map]
      exact hcells
    rw [Term.eval, Context.members_of_group]
    show ((kept.map (Context.ofRow outer)).mapM fun member =>
      t.eval engine database member).bind _ = _
    rw [hmembers]
    rfl
  obtain ⟨names, hcounted⟩ := Statement.eval_aggregate (by rw [Term.aggregates]) hread hkept hcell
  refine ⟨_, hcounted, ?_⟩
  rw [Table.IsCount, Engine.length_distinct_known, ← hvalues, (hrows.filter _).length_eq, hdistinct]
  rfl

/-- **Counting from outside**: as the only source of the counting statement, any statement is
counted. -/
theorem Statement.count_from_outside {s : Statement} {table : Table Cell}
    (h : s.eval engine database outer = some table) (occurrence : Occurrence) (id : SourceId) :
    ∃ counted, (Statement.aggregate (.countRows id) (some (.query occurrence s none)) none).eval
        engine database outer = some counted ∧ counted.IsCount engine table.rows.length := by
  have hread : From.evalClause engine database outer (some (.query occurrence s none)) =
      some (table.joined engine.null none) := by
    rw [From.evalClause, From.eval, h]
    rfl
  -- There is no condition, so every row of the query is counted.
  have hkept : keep (fun row => Term.holds engine database (.ofRow outer row) none)
      (table.joined engine.null none).rows = some (table.joined engine.null none).rows := by
    have hholds : (fun row => Term.holds engine database (.ofRow outer row) none) =
        fun _ => some true := funext fun row => by rw [Term.holds]
    rw [hholds, keep_all]
  obtain ⟨counted, hcounted, hcount⟩ := Statement.eval_countRows id hread hkept
  rw [Table.joined, List.length_map] at hcount
  exact ⟨counted, hcounted, hcount⟩

end RelationalQuery.Sql
