/-
  RelationalQuery.Proofs.Execution.Rows — how many rows a statement returns.

  What a statement returns is read off its contexts, one for each row or group that the clauses in
  front of the select list leave. Each context gives one row, sorting only permutes the rows, and
  without groups the contexts are the filtered rows themselves. So the number of rows can be told
  without the select list, as long as repeated rows are kept.

  Main statements:
    * `Sql.Statement.eval_eq_some`: the evaluation in its steps.
    * `Sql.Statement.eval_unordered`: without its ordering a statement returns as many rows.
    * `Sql.Statement.eval_aggregate`: a statement whose only entry is an aggregate has one row.
    * `Sql.Statement.rows_of_plain`: the rows of a statement without groups and without limit.
-/

import RelationalQuery.Proofs.Execution.Semantics
import RelationalQuery.Proofs.Outcome

namespace RelationalQuery.Sql

/-! ## Steps over rows -/

section Steps

variable {α β : Type}

/-- Where each result has a counterpart, all of them have. -/
theorem exists_mapM {γ δ : Type} {f : α → Option β} {g : α → Option γ} {h : β → δ} {k : γ → δ}
    (hg : ∀ x y, f x = some y → ∃ z, g x = some z ∧ h y = k z) {xs : List α} {ys : List β}
    (hf : xs.mapM f = some ys) : ∃ zs, xs.mapM g = some zs ∧ ys.map h = zs.map k := by
  rw [mapM_eq_some] at hf
  -- Results go along with the elements, so the induction takes both lists apart together.
  induction xs generalizing ys with
  | nil =>
      rw [List.map_eq_nil_iff.mp hf.symm]
      exact ⟨[], rfl, rfl⟩
  | cons x rest ih =>
      cases ys with
      | nil => cases hf
      | cons y others =>
          obtain ⟨hy, hothers⟩ := List.cons.inj hf
          obtain ⟨z, hz, hyz⟩ := hg x y hy
          obtain ⟨zs, hzs, hall⟩ := ih hothers
          refine ⟨z :: zs, ?_, ?_⟩
          · rw [List.mapM_cons, hz, hzs]
            rfl
          · rw [List.map_cons, List.map_cons, hyz, hall]

/-- A condition that holds everywhere keeps all rows. -/
theorem keep_all (rows : List α) : keep (fun _ => some true) rows = some rows := by
  induction rows with
  | nil => rfl
  | cons a rest ih =>
      rw [keep, ih]
      rfl

/-- Inserting a row where it belongs only moves it. -/
theorem insertBy_perm (precedes : α → α → Bool) (a : α) (rows : List α) :
    (insertBy precedes a rows).Perm (a :: rows) := by
  induction rows with
  | nil => exact .refl _
  | cons b rest ih =>
      rw [insertBy]
      split
      · exact (ih.cons b).trans (.swap a b rest)
      · exact .refl _

/-- Ordering only moves rows. -/
theorem orderBy_perm (precedes : α → α → Bool) (rows : List α) :
    (orderBy precedes rows).Perm rows := by
  induction rows with
  | nil => exact .refl _
  | cons a rest ih => exact (insertBy_perm precedes a _).trans (ih.cons a)

/-- Rows that are told apart by their images are told apart as the images are. -/
theorem distinctBy_map (same : β → β → Bool) (f : α → β) (rows : List α) :
    distinctBy same (rows.map f) =
      (distinctBy (fun a b => same (f a) (f b)) rows).map f := by
  induction rows with
  | nil => rfl
  | cons a rest ih =>
      rw [List.map_cons, distinctBy, distinctBy, ih, List.map_cons, List.filter_map]
      rfl

/-- Rows that are the same are left out together, so it does not matter when they are. -/
theorem distinctBy_filter {same : α → α → Bool} {p : α → Bool}
    (hp : ∀ a b, same a b = true → p a = p b) (rows : List α) :
    distinctBy same (rows.filter p) = (distinctBy same rows).filter p := by
  induction rows with
  | nil => rfl
  | cons a rest ih =>
      rw [distinctBy]
      cases ha : p a with
      | true =>
          rw [List.filter_cons_of_pos ha, List.filter_cons_of_pos ha, distinctBy, ih,
            List.filter_filter, List.filter_filter]
          exact congrArg _ (List.filter_congr fun b _ => Bool.and_comm ..)
      | false =>
          rw [List.filter_cons_of_neg (by rw [ha]; decide),
            List.filter_cons_of_neg (by rw [ha]; decide), ih, List.filter_filter]
          refine List.filter_congr fun b _ => ?_
          -- A row that is the same as the first is left out as the first is.
          cases hsame : same a b with
          | true => rw [← hp a b hsame, ha]; rfl
          | false => rw [Bool.not_false, Bool.and_true]

/-- A limit leaves equally many rows of equally many. -/
theorem length_limited (limit : Option Limit) {a : List α} {b : List β}
    (h : a.length = b.length) : (limited limit a).length = (limited limit b).length := by
  match limit with
  | none => exact h
  | some ⟨count, offset⟩ => rw [limited, limited, List.length_take, List.length_take,
      List.length_drop, List.length_drop, h]

end Steps

section Results

variable {Cell : Type} (engine : Engine Cell)

/-- The rows that the select list gives, without repeated ones if asked for. -/
def deduplicated (distinct : Bool) (rows : List (List Cell)) : List (List Cell) :=
  if distinct then distinctBy engine.sameRow rows else rows

/-- Without a limit, the rows of a result are the deduplicated ones in some order. -/
theorem finish_perm (distinct : Bool) (results : List (Result Cell)) :
    (finish engine distinct none results).Perm
      (deduplicated engine distinct (results.map (·.cells))) := by
  unfold finish deduplicated
  refine ((orderBy_perm _ _).map _).trans ?_
  cases distinct with
  | false => exact .refl _
  | true =>
      rw [if_pos rfl, if_pos rfl, distinctBy_map]

/-- With a limit, a result has as many rows as the limit leaves of the deduplicated ones. -/
theorem length_finish (distinct : Bool) (limit : Option Limit) (results : List (Result Cell)) :
    (finish engine distinct limit results).length =
      (limited limit (deduplicated engine distinct (results.map (·.cells)))).length :=
  length_limited limit (finish_perm engine distinct results).length_eq

end Results

/-! ## Statements -/

section Statements

variable {Cell : Type} {engine : Engine Cell} {database : Database Cell}
  {outer : List (Frame Cell)}

/-- The context of a row that is in no group. -/
def Context.ofRow (outer : List (Frame Cell)) (row : Frame Cell) : Context Cell :=
  ⟨row :: outer, none⟩

/-- The contexts that the select list is evaluated in: those of the groups, or of the rows. -/
def Statement.contexts (engine : Engine Cell) (database : Database Cell)
    (outer : List (Frame Cell)) (s : Statement) (blank : Frame Cell) (kept : List (Frame Cell)) :
    Option (List (Context Cell)) :=
  if s.grouped engine then do
    let keys ← kept.mapM fun row => Term.evalAll engine database (.ofRow outer row) s.groupBy
    keep (fun c => Term.holds engine database c s.having)
      (groupContexts engine outer blank s.groupBy.isEmpty (keys.zip kept))
  else some (kept.map (.ofRow outer))

/-- The names of the columns of the result. -/
def Statement.names (s : Statement) (blank : Frame Cell) : List (Option String) :=
  (s.items ++ s.added).flatMap (Item.names blank)

/-- The row of the result that a context gives. -/
def Statement.result (engine : Engine Cell) (database : Database Cell) (s : Statement)
    (blank : Frame Cell) (c : Context Cell) : Option (Result Cell) := do
  let cells :=
    (← Item.evalAll engine database c s.items) ++ (← Item.evalAll engine database c s.added)
  return ⟨cells, ← SortTerm.evalAll engine database c ((s.names blank).zip cells) s.orderings⟩

/-- The evaluation in its steps. -/
theorem Statement.eval_eq_some {s : Statement} {table : Table Cell} :
    s.eval engine database outer = some table ↔ ∃ read kept contexts results,
      From.evalClause engine database outer s.source = some read ∧
      keep (fun row => Term.holds engine database (.ofRow outer row) s.filter) read.rows =
        some kept ∧
      s.contexts engine database outer read.blank kept = some contexts ∧
      contexts.mapM (s.result engine database read.blank) = some results ∧
      table = ⟨s.names read.blank, finish engine s.distinct s.limit results⟩ := by
  obtain ⟨distinct, items, added, source, filter, groupBy, having, orderings, limit⟩ := s
  -- The steps are those of the definition, in its order, and none of them is skipped.
  rw [Statement.eval]
  constructor
  · intro h
    obtain ⟨read, hread, h⟩ := Option.bind_eq_some_iff.mp h
    obtain ⟨kept, hkept, h⟩ := Option.bind_eq_some_iff.mp h
    obtain ⟨contexts, hcontexts, h⟩ := Option.bind_eq_some_iff.mp h
    obtain ⟨results, hresults, h⟩ := Option.bind_eq_some_iff.mp h
    exact ⟨read, kept, contexts, results, hread, hkept, hcontexts, hresults,
      (Option.some.inj h).symm⟩
  · rintro ⟨read, kept, contexts, results, hread, hkept, hcontexts, hresults, rfl⟩
    refine Option.bind_eq_some_iff.mpr ⟨read, hread, ?_⟩
    refine Option.bind_eq_some_iff.mpr ⟨kept, hkept, ?_⟩
    refine Option.bind_eq_some_iff.mpr ⟨contexts, hcontexts, ?_⟩
    exact Option.bind_eq_some_iff.mpr ⟨results, hresults, rfl⟩

/-- What a context gives is the cells of the select list, its own and the added ones, with the keys
that they are ordered by. -/
theorem Statement.result_eq_some {s : Statement} {blank : Frame Cell} {c : Context Cell}
    {r : Result Cell} : s.result engine database blank c = some r ↔ ∃ own added,
      Item.evalAll engine database c s.items = some own ∧
      Item.evalAll engine database c s.added = some added ∧
      r.cells = own ++ added ∧
      SortTerm.evalAll engine database c ((s.names blank).zip r.cells) s.orderings =
        some r.keys := by
  constructor
  · intro h
    obtain ⟨own, hown, h⟩ := Option.bind_eq_some_iff.mp h
    obtain ⟨added, hadded, h⟩ := Option.bind_eq_some_iff.mp h
    obtain ⟨keys, hkeys, h⟩ := Option.bind_eq_some_iff.mp h
    cases h
    exact ⟨own, added, hown, hadded, rfl, hkeys⟩
  · rintro ⟨own, added, hown, hadded, hcells, hkeys⟩
    rw [hcells] at hkeys
    refine Option.bind_eq_some_iff.mpr ⟨own, hown, ?_⟩
    refine Option.bind_eq_some_iff.mpr ⟨added, hadded, ?_⟩
    refine Option.bind_eq_some_iff.mpr ⟨r.keys, hkeys, ?_⟩
    rw [← hcells]
    rfl

/-- Without a condition every row is kept. -/
theorem Term.holds_none :
    (fun c : Context Cell => Term.holds engine database c none) = fun _ => some true :=
  funext fun c => by rw [Term.holds]

/-- The statement without its ordering. -/
def Statement.unordered (s : Statement) : Statement := { s with orderings := [] }

/-- Without its ordering a statement returns as many rows. -/
theorem Statement.eval_unordered {s : Statement} {table : Table Cell}
    (h : s.eval engine database outer = some table) :
    ∃ other, s.unordered.eval engine database outer = some other ∧
      other.rows.length = table.rows.length := by
  obtain ⟨read, kept, contexts, results, hread, hkept, hcontexts, hresults, rfl⟩ :=
    Statement.eval_eq_some.mp h
  -- Only the keys of the results differ, and none are needed any more.
  obtain ⟨others, hothers, hcells⟩ : ∃ others,
      contexts.mapM (s.unordered.result engine database read.blank) = some others ∧
        results.map (·.cells) = others.map (·.cells) := by
    refine exists_mapM (fun c r hr => ?_) hresults
    obtain ⟨own, added, hown, hadded, hcells, _⟩ := Statement.result_eq_some.mp hr
    refine ⟨⟨r.cells, []⟩, Statement.result_eq_some.mpr ⟨own, added, hown, hadded, hcells, ?_⟩, rfl⟩
    rw [Statement.unordered, SortTerm.evalAll]
  refine ⟨_, Statement.eval_eq_some.mpr
    ⟨read, kept, contexts, others, hread, hkept, hcontexts, hothers, rfl⟩, ?_⟩
  show (finish engine s.distinct s.limit _).length = (finish engine s.distinct s.limit _).length
  rw [length_finish, length_finish, hcells]

/-- A statement that selects an aggregate over all its rows. -/
def Statement.aggregate (t : Term) (source : Option From) (filter : Option Term) : Statement where
  distinct := false
  items := [.term t]
  added := []
  source
  filter
  groupBy := []
  having := none
  orderings := []
  limit := none

/-- A statement whose only entry is an aggregate has one row, with the aggregate over the rows that
the filter leaves. -/
theorem Statement.eval_aggregate {t : Term} (ht : t.aggregates engine = true)
    {source : Option From} {filter : Option Term} {read : Joined Cell}
    (hread : From.evalClause engine database outer source = some read)
    {kept : List (Frame Cell)}
    (hkept : keep (fun row => Term.holds engine database (.ofRow outer row) filter) read.rows =
      some kept) {cell : Cell}
    (hcell : t.eval engine database ⟨kept.headD read.blank :: outer, some kept⟩ = some cell) :
    ∃ names, (Statement.aggregate t source filter).eval engine database outer =
      some ⟨names, [[cell]]⟩ := by
  -- There are no keys, so all rows fall into one group, also when there are none.
  have hkeys : kept.mapM (fun row => Term.evalAll engine database (.ofRow outer row) []) =
      some (kept.map fun _ => []) := by
    rw [mapM_eq_some, List.map_map]
    exact List.map_congr_left fun row _ => by simp only [Term.evalAll, Function.comp_apply]
  have hzip : (((kept.map fun _ => ([] : List Cell)).zip kept).map (·.2)) = kept :=
    List.map_snd_zip (Nat.le_of_eq (List.length_map _).symm)
  have hcontexts : (Statement.aggregate t source filter).contexts engine database outer read.blank
      kept = some [⟨kept.headD read.blank :: outer, some kept⟩] := by
    have hgrouped : (Statement.aggregate t source filter).grouped engine = true := by
      show (false || false || (t.aggregates engine || false)) = true
      rw [ht]
      rfl
    unfold Statement.contexts
    rw [hgrouped, if_pos rfl]
    show ((kept.mapM fun row => Term.evalAll engine database (.ofRow outer row) []).bind fun keys =>
      keep (fun c => Term.holds engine database c none)
        (groupContexts engine outer read.blank true (keys.zip kept))) = _
    rw [hkeys, Option.bind_some, Term.holds_none, keep_all, groupContexts, if_pos rfl, hzip]
    rfl
  -- In that group the only entry is the aggregate.
  have hresult : (Statement.aggregate t source filter).result engine database read.blank
      ⟨kept.headD read.blank :: outer, some kept⟩ = some ⟨[cell], []⟩ := by
    refine Statement.result_eq_some.mpr ⟨[cell], [], ?_, by rw [Statement.aggregate, Item.evalAll],
      rfl, by rw [Statement.aggregate, SortTerm.evalAll]⟩
    show Item.evalAll engine database _ [.term t] = _
    rw [Item.evalAll, Item.evalAll, Item.eval, hcell]
    rfl
  exact ⟨_, Statement.eval_eq_some.mpr ⟨read, kept, _, [⟨[cell], []⟩], hread, hkept, hcontexts,
    by rw [mapM_eq_some, List.map_singleton, hresult]; rfl, rfl⟩⟩

/-- The rows of a statement without groups and without limit: up to their order, those that the
select list gives for the rows that the filter leaves. -/
theorem Statement.rows_of_plain {s : Statement} (hplain : s.grouped engine = false)
    (hlimit : s.limit = none) {table : Table Cell}
    (h : s.eval engine database outer = some table) :
    ∃ read kept results, From.evalClause engine database outer s.source = some read ∧
      keep (fun row => Term.holds engine database (.ofRow outer row) s.filter) read.rows =
        some kept ∧
      kept.mapM (fun row => s.result engine database read.blank (.ofRow outer row)) =
        some results ∧
      table.rows.Perm (deduplicated engine s.distinct (results.map (·.cells))) := by
  obtain ⟨read, kept, contexts, results, hread, hkept, hcontexts, hresults, rfl⟩ :=
    Statement.eval_eq_some.mp h
  unfold Statement.contexts at hcontexts
  rw [hplain, if_neg Bool.false_ne_true] at hcontexts
  cases hcontexts
  refine ⟨read, kept, results, hread, hkept, ?_, ?_⟩
  · rw [mapM_eq_some, List.map_map] at hresults
    exact mapM_eq_some.mpr hresults
  · -- Ordering permutes the rows, and without a limit none is left out.
    rw [hlimit]
    exact finish_perm engine s.distinct results

end Statements

end RelationalQuery.Sql
