/-
  RelationalQuery.Proofs.Execution.CountRows — counting queries give the number of rows.

  The counting query is compiled to a statement of which every engine gives one row with one cell,
  and that is the number of rows of the counted query. Two things can be seen in it. Counted by its
  distinct values, a query has its rows without NULL. And counting in place looks at the clauses of
  a query, but not into its select list: where an aggregate in there makes one row of all, the
  rows that it was made of are counted.

  Main statements:
    * `Session.Reachable.count_eq_rows`: of every query that building gives.
-/

import RelationalQuery.Proofs.Building.Reachable
import RelationalQuery.Proofs.Execution.CountStatement
import RelationalQuery.Proofs.Statement.Writing

namespace RelationalQuery

open Sql Fragment

/-! ## Bindings of statements -/

namespace Sql

/-- Limits are written as numbers, so they bring no values. -/
@[simp] theorem bindings_limitClause (limit : Option Limit) :
    (Clauses.limitClause limit).bindings = [] := by
  match limit with
  | none => rfl
  | some ⟨count, none⟩ => simp [Clauses.limitClause]
  | some ⟨count, some offset⟩ => simp [Clauses.limitClause]

@[simp] theorem bindings_clause_nil (keywords : List Token) :
    (Clauses.clause keywords []).bindings = [] := rfl

/-- The bindings of a statement, clause by clause. -/
theorem Statement.write_bindings (s : Statement) : s.write.bindings =
    (joinWith .comma (Item.writeAll s.items ++ Item.writeAll s.added)).bindings ++
      ((From.writeClause s.source).bindings ++ (Term.writeClause .where s.filter).bindings) ++
      ((Clauses.clause [.group, .by] (Term.writeAll s.groupBy)).bindings ++
        (Term.writeClause .having s.having).bindings ++
        (Clauses.clause [.order, .by] (SortTerm.writeAll s.orderings)).bindings) := by
  obtain ⟨distinct, items, added, source, filter, groupBy, having, orderings, limit⟩ := s
  have hdistinct : (if distinct then token .distinct else empty).bindings = [] := by
    cases distinct <;> rfl
  rw [Statement.write]
  simp [hdistinct]

/-- Without its ordering a statement brings fewer bindings. -/
theorem Statement.bindings_unordered (s : Statement) :
    s.unordered.write.bindings.Sublist s.write.bindings := by
  rw [Statement.write_bindings, Statement.write_bindings]
  refine ((List.Sublist.refl _).append (.refl _)).append (List.Sublist.append (.refl _) ?_)
  rw [Statement.unordered, SortTerm.writeAll, bindings_clause_nil]
  exact List.nil_sublist _

/-- A statement of one aggregate brings the values of the aggregate, of its FROM clause and of its
condition. -/
theorem Statement.bindings_aggregate (t : Term) (source : Option From) (filter : Option Term) :
    (Statement.aggregate t source filter).write.bindings = t.write.bindings ++
      ((From.writeClause source).bindings ++ (Term.writeClause .where filter).bindings) := by
  rw [Statement.write_bindings]
  simp [Statement.aggregate, Item.writeAll, Item.write, Term.writeAll, SortTerm.writeAll,
    Term.writeClause, joinWith]

/-- Over the same clauses, an aggregate that brings no more than the select list brings fewer
bindings. -/
theorem Statement.bindings_in_place {s : Statement} {t : Term}
    (ht : t.write.bindings.Sublist
      (joinWith .comma (Item.writeAll s.items ++ Item.writeAll s.added)).bindings) :
    (Statement.aggregate t s.source s.filter).write.bindings.Sublist s.write.bindings := by
  rw [Statement.bindings_aggregate, Statement.write_bindings]
  exact (ht.append (.refl _)).trans (List.sublist_append_left _ _)

/-- Counting all rows brings no values. -/
@[simp] theorem Term.bindings_countRows (id : SourceId) :
    (Term.countRows id).write.bindings = [] := by
  simp [Term.write]

/-- A statement that counts another from outside brings the values of that one. -/
theorem Statement.bindings_from_outside (id : SourceId) (occurrence : Occurrence) (s : Statement) :
    (Statement.aggregate (.countRows id) (some (.query occurrence s none)) none).write.bindings =
      s.write.bindings := by
  rw [Statement.bindings_aggregate]
  simp [From.writeClause, From.write, Clauses.querySource, Term.writeClause]

/-- Counting the values of an expression brings what the entry that selects it brings. -/
theorem Item.bindings_countDistinct {item : Item} {t : Term} (h : item.term? = some t) :
    (Term.countDistinct t).write.bindings = item.write.bindings := by
  cases item with
  | everything => cases h
  | star r => cases h
  | term u =>
      cases h
      simp [Term.write, Item.write]
  | aliased u label =>
      cases h
      simp [Term.write, Item.write]

end Sql

/-! ## The count and the rows -/

/-- A statement without groups has neither keys nor a condition on groups. -/
theorem Sql.Statement.of_plain {Cell : Type} {engine : Engine Cell} {s : Statement}
    (h : s.grouped engine = false) : s.groupBy = [] ∧ s.having = none := by
  unfold Statement.grouped Sql.grouped at h
  rw [Bool.or_eq_false_iff, Bool.or_eq_false_iff, Bool.not_eq_false', List.isEmpty_iff,
    Option.isSome_eq_false_iff, Option.isNone_iff_eq_none] at h
  exact h.1

/-- The number of rows that counting promises. Counted by distinct values, it is that of the rows
without NULL. -/
def Query.promisedCount {Cell : Type} (engine : Engine Cell) (q : Query) (table : Sql.Table Cell) :
    Nat :=
  if q.countsValues then (table.rows.filter engine.knownRow).length else table.rows.length

section Counting

variable {Cell : Type} {engine : Engine Cell} {database : Database Cell} {schema : Schema}
  {q : Query} {statement : Statement} {table : Sql.Table Cell}

/-- An id above those of all occurrences belongs to none of them. -/
theorem Query.not_mem_ids {next : Nat} (hnext : ∀ o ∈ q.occurrences, o.id.index < next) :
    ⟨next⟩ ∉ q.occurrences.map (·.id) := by
  intro hmem
  obtain ⟨o, ho, hid⟩ := List.mem_map.mp hmem
  have hbelow := hnext o ho
  rw [hid] at hbelow
  exact Nat.lt_irrefl _ hbelow

/-- The statement of a counting query: it brings no new bindings, and it counts. -/
theorem Query.counting_of_run (hstatement : q.statement schema = .ok statement)
    (htable : statement.run engine database = some table)
    (hplain : q.countedInPlace?.isSome = true → statement.grouped engine = false) {next : Nat}
    (hnext : ∀ o ∈ q.occurrences, o.id.index < next) :
    ∃ counting counted, (q.countQuery.run next).1.statement schema = .ok counting ∧
      counting.write.bindings.Sublist statement.write.bindings ∧
      counting.run engine database = some counted ∧
      counted.IsCount engine (q.promisedCount engine table) := by
  rw [Query.countQuery_eq, Query.promisedCount, Query.countsValues]
  cases hshape : q.countedInPlace? with
  | some counting =>
      -- In place: the clauses stay, and only the select list changes.
      have hgrouped := hplain (by rw [hshape]; rfl)
      obtain ⟨_, hhaving⟩ := Statement.of_plain hgrouped
      obtain ⟨hlimit, hadded, hcases⟩ := Query.statement_in_place hstatement hshape hhaving
      rcases hcases with ⟨hdistinct, hkeeps, id, hcounting⟩ |
        ⟨hdistinct, hdrops, item, t, hitems, hterm, hcounting⟩
      · rw [hdistinct, Bool.and_false, if_neg Bool.false_ne_true]
        obtain ⟨counted, hrun, hcount⟩ :=
          Statement.count_in_place hgrouped hkeeps hlimit htable id
        refine ⟨_, counted, hcounting, Statement.bindings_in_place ?_, hrun, hcount⟩
        rw [Term.bindings_countRows]
        exact List.nil_sublist _
      · rw [hdistinct, Option.isSome_some, Bool.and_true, if_pos rfl]
        obtain ⟨counted, hrun, hcount⟩ :=
          Statement.count_values_in_place hgrouped hdrops hlimit hitems hterm hadded htable
        refine ⟨_, counted, hcounting, Statement.bindings_in_place ?_, hrun, hcount⟩
        rw [Item.bindings_countDistinct hterm, hitems, hadded]
        simp [Item.writeAll, joinWith]
  | none =>
      rw [Option.isSome_none, Bool.false_and, if_neg Bool.false_ne_true]
      -- From outside: the statement becomes a source, so its rows are those that are counted.
      obtain ⟨unordered, hunordered, hlength⟩ := Statement.eval_unordered htable
      -- The counting query draws an id that no occurrence has.
      obtain ⟨occurrence, hcounting⟩ :=
        Query.statement_from_outside hstatement (Query.not_mem_ids hnext)
      obtain ⟨counted, hrun, hcount⟩ :=
        Statement.count_from_outside hunordered occurrence ⟨next⟩
      rw [hlength] at hcount
      refine ⟨_, counted, hcounting, ?_, hrun, hcount⟩
      rw [Statement.bindings_from_outside]
      exact Statement.bindings_unordered statement

/-- **The counting query counts the rows.** Of every query that building gives, when it compiles and
an engine accepts its statement: the counting query compiles too, and its statement is accepted and
gives the number of rows of the first; where the distinct values of one expression are counted in
place, NULL is not among them. A query that is counted in place must not be grouped, as it is if an
aggregate stands in its select list or a condition on groups is set. -/
theorem Session.Reachable.count_eq_rows {σ : Session} (hσ : σ.Reachable)
    (hq : .query q ∈ σ.held) {sql : BoundSql} (hsql : q.compile schema = .ok sql)
    (hstatement : q.statement schema = .ok statement)
    (htable : statement.run engine database = some table)
    (hplain : q.countedInPlace?.isSome = true → statement.grouped engine = false) :
    ∃ counting other counted, (q.countQuery.run σ.next).1.statement schema = .ok counting ∧
      counting.write.build = .ok other ∧
      (q.countQuery.run σ.next).1.compile schema = .ok other ∧
      counting.run engine database = some counted ∧
      counted.IsCount engine (q.promisedCount engine table) := by
  obtain ⟨counting, counted, hcounting, hbindings, hrun, hcount⟩ :=
    Query.counting_of_run hstatement htable hplain (hσ.invariant.below _ hq)
  rw [Query.compile_eq_statement, hstatement] at hsql
  obtain ⟨other, hother⟩ := Fragment.build_of_sublist hbindings hsql
  refine ⟨counting, other, counted, hcounting, hother, ?_, hrun, hcount⟩
  rw [Query.compile_eq_statement, hcounting]
  exact hother

end Counting

/-! ## A database -/

/-- An engine on plain values that compares by equality and has no functions of its own. -/
def plainEngine : Engine Value where
  null := .null
  isNull := Value.isNull
  value v := v
  count n := .integer (Int64.ofNat n)
  ofTruth
    | none => .null
    | some holds => .integer (if holds then 1 else 0)
  truth
    | .null => none
    | v => some (!v.agrees (.integer 0))
  equal a b := if a.isNull || b.isNull then none else some (a.agrees b)
  same := Value.agrees
  precedes a b := a.compare? b == some .lt
  collate _ _ := none
  prefixed _ _ := none
  infixed _ _ _ := none
  function _ _ := none
  aggregate? _ _ := none
  literal _ _ _ := none
  literalAggregates _ := false
  isNull_of_same a b h := by
    cases a <;> cases b <;> first | rfl | cases h

/-- A stored person. -/
def person (id : Int64) (name : String) (leader : Value) (column : String) : Value :=
  if column = "id" ∨ column = "_rowid_" then .integer id
  else if column = "name" then .text name
  else leader

/-- Three people, of whom the first leads the others. -/
def crew : Database Value where
  table? name :=
    if name = "persons" then
      some ⟨["id", "name", "leader_id"], ["_rowid_"],
        [person 1 "Ada" .null, person 2 "Ben" (.integer 1), person 3 "Eve" (.integer 1)]⟩
    else none

/-- Two people are led, and they are counted. -/
theorem ledPeople_counted : ∃ statement table counting counted next,
    ledPeople.statement people = .ok statement ∧ statement.run plainEngine crew = some table ∧
    table.rows.length = 2 ∧ (ledPeople.countQuery.run next).1.statement people = .ok counting ∧
    counting.run plainEngine crew = some counted ∧ counted.rows = [[.integer 2]] := by
  obtain ⟨σ, hσ, hq⟩ := reachable_ledPeople
  obtain ⟨sql, hsql⟩ : ∃ sql, ledPeople.compile people = .ok sql := exists_ok (by decide +kernel)
  obtain ⟨statement, hstatement, _⟩ := Query.statement_of_compile hsql
  have hcomputed : ((ledPeople.statement people).toOption.bind fun s =>
      (s.run plainEngine crew).map fun t => t.rows.length) = some 2 := by
    decide +kernel
  rw [hstatement, Except.toOption, Option.bind_some] at hcomputed
  obtain ⟨table, htable, hlength⟩ := Option.map_eq_some_iff.mp hcomputed
  -- A query with joins is counted from outside, whatever its select list.
  have hshape : ledPeople.countedInPlace? = none := by
    rw [← Option.isNone_iff_eq_none]
    decide +kernel
  obtain ⟨counting, _, counted, hcounting, _, _, hrun, hcount⟩ :=
    hσ.count_eq_rows hq hsql hstatement htable (by rw [hshape]; intro h; cases h)
  refine ⟨statement, table, counting, counted, σ.next, hstatement, htable, hlength, hcounting,
    hrun, ?_⟩
  rw [Table.IsCount, Query.promisedCount, Query.countsValues, hshape] at hcount
  rw [hcount, if_neg (by decide), hlength]
  rfl

/-- How many names people have. -/
def nameCount : Supply Query := do
  let people ← Query.table "persons"
  return people.select [.expr (.count (.expr (people.column "name")))]

/-- **An aggregate in the select list is counted wrongly**: the query returns one row, and the
counting query gives the number of people. -/
theorem nameCount_miscounted : ∃ σ : Session, σ.Reachable ∧ .query (nameCount.run 0).1 ∈ σ.held ∧
    ∃ sql statement table counting other counted,
      (nameCount.run 0).1.compile people = .ok sql ∧
      (nameCount.run 0).1.statement people = .ok statement ∧
      statement.run plainEngine crew = some table ∧ table.rows = [[.integer 3]] ∧
      ((nameCount.run 0).1.countQuery.run σ.next).1.statement people = .ok counting ∧
      ((nameCount.run 0).1.countQuery.run σ.next).1.compile people = .ok other ∧
      counting.run plainEngine crew = some counted ∧
      ¬counted.IsCount plainEngine table.rows.length := by
  have hpeople := Session.Reachable.start.table "persons"
  have hall := hpeople.select (List.mem_cons_self ..)
    [.expr (.count (.expr (.column (some ⟨0⟩) "name")))] fun p hp => by cases hp
  refine ⟨_, hall, List.mem_cons_self .., ?_⟩
  obtain ⟨sql, hsql⟩ : ∃ sql, (nameCount.run 0).1.compile people = .ok sql :=
    exists_ok (by decide +kernel)
  obtain ⟨other, hother⟩ :
      ∃ other, ((nameCount.run 0).1.countQuery.run 1).1.compile people = .ok other :=
    exists_ok (by decide +kernel)
  obtain ⟨statement, hstatement, _⟩ := Query.statement_of_compile hsql
  obtain ⟨counting, hcounting, _⟩ := Query.statement_of_compile hother
  -- One row, whose only cell is the number of people.
  have hrows : (((nameCount.run 0).1.statement people).toOption.bind fun s =>
      (s.run plainEngine crew).map (·.rows)) = some [[.integer 3]] := by
    decide +kernel
  -- The count is that number too, and not the number of rows.
  have hcounted : ((((nameCount.run 0).1.countQuery.run 1).1.statement people).toOption.bind
      fun s => (s.run plainEngine crew).map (·.rows)) = some [[.integer 3]] := by
    decide +kernel
  rw [hstatement, Except.toOption, Option.bind_some] at hrows
  rw [hcounting, Except.toOption, Option.bind_some] at hcounted
  obtain ⟨table, htable, hrows⟩ := Option.map_eq_some_iff.mp hrows
  obtain ⟨counted, hrun, hcounted⟩ := Option.map_eq_some_iff.mp hcounted
  refine ⟨sql, statement, table, counting, other, counted, hsql, hstatement, htable, hrows,
    hcounting, hother, hrun, ?_⟩
  rw [Table.IsCount, hcounted, hrows]
  decide

end RelationalQuery
