/-
  RelationalQuery.Proofs.Execution.CountCompiled — what a counting query is compiled to.

  Counted from outside, a query is compiled as it is, and the count is written around it: the source
  that the count adds has no name, takes none, and is known to nobody inside. So the text of the
  query stands unchanged between the parentheses, and what kept the query from compiling keeps the
  counting query from it, with the same error. Counted in place, the query keeps its clauses.

  Main definitions:
    * `Query.Unused`: the id belongs to no source of a query, and nothing refers to it.
    * `Sql.Statement.clauses`: the clauses that counting in place keeps.

  Main statements:
    * `Query.fragment_error_from_outside`: the same error from outside.
    * `Query.compile_from_outside`: the same text between parentheses.
    * `Query.compile_countQuery`: counting queries of either shape.
-/

import RelationalQuery.Proofs.Execution.CountRows
import RelationalQuery.Proofs.Failure.Alike
import RelationalQuery.Proofs.Text.Composition

namespace RelationalQuery

open Sql Fragment

/-! ## Widths -/

/-- A count has one column. -/
theorem Query.width_countQuery (schema : Schema) (q : Query) (next : Nat) :
    (q.countQuery.run next).1.width schema = .ok 1 := by
  have hsingle : ∀ (members : List (SourceId × Width)) (e : Expr),
      ResultColumn.totalWidth members [.expr e] 0 = .ok 1 := fun _ _ => rfl
  rw [Query.countQuery_eq, Query.width_eq]
  cases hshape : q.countedInPlace? with
  | none => exact hsingle _ _
  | some counting =>
      -- A table adds no columns to the one that counts.
      obtain ⟨id, table, label, hsource, _, _, ⟨_, rfl⟩ | ⟨_, _, e, _, _, rfl⟩⟩ :=
        Query.of_countedInPlace? hshape
      · show ResultColumn.totalWidth _
          (Query.countRows id ++ ((q.source.map (·.relationColumns)).getD [])) 0 = _
        rw [hsource]
        exact hsingle _ _
      · show ResultColumn.totalWidth _
          ([.expr (.countDistinct e)] ++ ((q.source.map (·.relationColumns)).getD [])) 0 = _
        rw [hsource]
        exact hsingle _ _

/-! ## The clauses that stay in place -/

/-- The clauses that say which rows there are. -/
def Sql.Statement.clauses (s : Statement) : Fragment :=
  From.writeClause s.source ++ Term.writeClause .where s.filter ++ Term.writeClause .having s.having

/-- Counting in place writes the aggregate in front of the clauses. -/
theorem Sql.Statement.write_counting (s : Statement) (t : Term) :
    (s.counting t).write = token .select ++ t.write ++ s.clauses := by
  have hcounting : s.counting t =
      ⟨false, [.term t], [], s.source, s.filter, [], s.having, [], none⟩ := rfl
  rw [hcounting, Statement.write, Statement.clauses]
  simp only [Item.writeAll, Item.write, Term.writeAll, SortTerm.writeAll, List.append_nil, joinWith,
    Clauses.clause, Clauses.limitClause, List.isEmpty_nil, Bool.false_eq_true, if_false, if_true,
    append_empty, append_assoc]

/-- A statement without groups and without a limit has its clauses in one piece. -/
theorem Sql.Statement.write_eq_clauses {s : Statement} (hgroupBy : s.groupBy = [])
    (hlimit : s.limit = none) : s.write =
      (token .select ++ (if s.distinct then token .distinct else empty) ++
        joinWith .comma (Item.writeAll s.items ++ Item.writeAll s.added)) ++ s.clauses ++
        Clauses.clause [.order, .by] (SortTerm.writeAll s.orderings) := by
  obtain ⟨distinct, items, added, source, filter, groupBy, having, orderings, limit⟩ := s
  cases hgroupBy
  cases hlimit
  rw [Statement.write, Statement.clauses]
  simp only [Term.writeAll, Clauses.clause, Clauses.limitClause, List.isEmpty_nil, if_true,
    append_empty, append_assoc]

/-- What the counting query of a query with clauses is written as: its text has the clauses as they
are written in the query, and its arguments are those of the counted expression and of the clauses,
in order. -/
structure Query.CountedInPlace (q : Query) (s : Statement) (sql other : BoundSql) : Prop where
  /-- The select list: all rows, or the distinct values of the only expression. -/
  counted : ∃ counted : Fragment,
    ((q.distinct = false ∧ counted = call "COUNT" (token .star)) ∨
      (q.distinct = true ∧ ∃ item t, s.items = [item] ∧ item.term? = some t ∧
        counted = call "COUNT" (token .distinct ++ t.write))) ∧
    other.sql = (token .select ++ counted).text ++ " " ++ s.clauses.text ∧
    other.arguments.positional = counted.positional ++ s.clauses.positional ∧
    Arguments.bindAll [] (counted.bindings ++ s.clauses.bindings) = some other.arguments.named
  text : ∃ before after, sql.sql = before ++ s.clauses.text ++ after

/-- The clauses of a query that is counted in place begin with the table that it reads. -/
theorem Query.clauses_of_countedInPlace {schema : Schema} {q counting : Query} {s : Statement}
    (hs : q.statement schema = .ok s) (hcounting : q.countedInPlace? = some counting) :
    ∃ rest, s.clauses = token .from ++ rest := by
  obtain ⟨scope, _, hresolve⟩ := bind_eq_ok.mp hs
  have hclause := (Query.resolve_eq_ok.mp hresolve).source
  obtain ⟨id, table, label, hsource, _⟩ := Query.of_countedInPlace? hcounting
  rw [hsource, Source.resolveClause, Source.resolve] at hclause
  have hread : s.source = some _ := (Except.ok.inj hclause).symm
  rw [Statement.clauses, hread, From.writeClause]
  exact ⟨_, by rw [append_assoc, append_assoc]⟩

/-- An aggregate over the clauses of a query that is counted in place is written before them, set
apart by a blank. -/
theorem Query.text_counting {schema : Schema} {q counting : Query} {s : Statement}
    (hs : q.statement schema = .ok s) (hcounting : q.countedInPlace? = some counting) {t : Term}
    {counted : Fragment} (ht : t.write = call "COUNT" counted) :
    (s.counting t).write.text = (token .select ++ t.write).text ++ " " ++ s.clauses.text := by
  obtain ⟨rest, hclauses⟩ := Query.clauses_of_countedInPlace hs hcounting
  have hcall : ∃ front, token .select ++ t.write = front ++ token .closeParen :=
    ⟨_, by rw [ht, call, ← append_assoc]⟩
  obtain ⟨front, hfront⟩ := hcall
  have hgap : gap (token .select ++ t.write) s.clauses = " " := by
    rw [hfront, hclauses]
    exact gap_close_word front rest rfl
  rw [Statement.write_counting, text_append, hgap]

/-- What is counted brings bindings that the select list brings. -/
theorem Sql.Statement.build_counting {s : Statement} {t : Term} (hgroupBy : s.groupBy = [])
    (hlimit : s.limit = none) {sql : BoundSql} (hbuild : s.write.build = .ok sql)
    (ht : t.write.bindings.Sublist
      (joinWith .comma (Item.writeAll s.items ++ Item.writeAll s.added)).bindings) :
    ∃ other, (s.counting t).write.build = .ok other := by
  refine build_of_sublist ?_ hbuild
  rw [Statement.write_counting, Statement.write_eq_clauses hgroupBy hlimit]
  have hdistinct : (if s.distinct then token .distinct else empty).bindings = [] := by
    cases s.distinct <;> rfl
  simp only [bindings_append, bindings_token, hdistinct, List.nil_append]
  exact (ht.append (.refl _)).trans (List.sublist_append_left _ _)

/-- The statement that counts is built from what is counted and from the clauses. -/
theorem Query.counted_of_build {schema : Schema} {q counting : Query} {s : Statement}
    (hs : q.statement schema = .ok s) (hcounting : q.countedInPlace? = some counting) {t : Term}
    (counted : Fragment) (ht : t.write = call "COUNT" counted) {other : BoundSql}
    (hother : (s.counting t).write.build = .ok other) :
    other.sql = (token .select ++ t.write).text ++ " " ++ s.clauses.text ∧
      other.arguments.positional = t.write.positional ++ s.clauses.positional ∧
      Arguments.bindAll [] (t.write.bindings ++ s.clauses.bindings) =
        some other.arguments.named := by
  rw [build_eq] at hother
  obtain ⟨arguments, harguments, hother⟩ := bind_eq_ok.mp hother
  cases pure_eq_ok.mp hother
  obtain ⟨hpositional, hnamed⟩ := arguments_eq_ok harguments
  -- The aggregate stands in front of the clauses, so its arguments come first.
  rw [Statement.write_counting] at hpositional hnamed
  refine ⟨Query.text_counting hs hcounting ht, ?_, ?_⟩
  · rw [hpositional, positional_append, positional_append]
    rfl
  · rw [← hnamed, bindings_append, bindings_append, bindings_token, List.nil_append]

/-- **A query that is counted in place keeps its clauses**: if it compiles, its counting query
does. -/
theorem Query.compile_in_place {schema : Schema} {q counting : Query}
    (hcounting : q.countedInPlace? = some counting) {sql : BoundSql}
    (hsql : q.compile schema = .ok sql) : ∃ s other, q.statement schema = .ok s ∧
      counting.compile schema = .ok other ∧ q.CountedInPlace s sql other := by
  obtain ⟨s, hstatement, hbuild⟩ := Query.statement_of_compile hsql
  obtain ⟨hgroupBy, hlimit, hadded, hshape⟩ := Query.statement_counted hstatement hcounting
  have htext : ∃ before after, sql.sql = before ++ s.clauses.text ++ after := by
    rw [build_eq] at hbuild
    obtain ⟨arguments, _, hbuild⟩ := bind_eq_ok.mp hbuild
    cases pure_eq_ok.mp hbuild
    rw [Statement.write_eq_clauses hgroupBy hlimit]
    exact text_within ..
  -- All rows are counted, or the distinct values of the only expression.
  rcases hshape with ⟨hdistinct, _, id, hcounted⟩ |
    ⟨hdistinct, _, item, t, hitems, hterm, hcounted⟩
  · obtain ⟨other, hother⟩ := Statement.build_counting hgroupBy hlimit hbuild
      (t := .countRows id) (by rw [Term.bindings_countRows]; exact List.nil_sublist _)
    have hbuilt := Query.counted_of_build hstatement hcounting (token .star) rfl hother
    refine ⟨s, other, hstatement, ?_, ⟨_, Or.inl ⟨hdistinct, rfl⟩, hbuilt⟩, htext⟩
    rw [Query.compile_eq_statement, hcounted, ok_bind, hother]
  · obtain ⟨other, hother⟩ := Statement.build_counting hgroupBy hlimit hbuild
      (t := .countDistinct t) (by
        rw [Item.bindings_countDistinct hterm, hitems, hadded]
        simp [Item.writeAll, joinWith])
    have hbuilt := Query.counted_of_build hstatement hcounting
      (token .distinct ++ t.write) rfl hother
    refine ⟨s, other, hstatement, ?_,
      ⟨_, Or.inr ⟨hdistinct, item, t, hitems, hterm, rfl⟩, hbuilt⟩, htext⟩
    rw [Query.compile_eq_statement, hcounted, ok_bind, hother]

/-! ## The same error from outside -/

/-- The id is new to the query, as every id that is drawn from the supply is: no source that is
named with the query has it, and nothing that writing the query comes to refers to it. -/
structure Query.Unused (schema : Schema) (q : Query) (id : SourceId) : Prop where
  source : id ∉ q.namedIds
  reference : ∀ d ∈ q.allDemands schema, ¬d.RefersTo id

/-- In a session the supply has passed all sources of a query, so the id that it draws next is new
to the query if nothing refers to it yet. -/
theorem Session.Reachable.unused {σ : Session} (hσ : σ.Reachable) {q : Query}
    (hq : .query q ∈ σ.held) {schema : Schema}
    (hreference : ∀ d ∈ q.unordered.allDemands schema, ¬d.RefersTo ⟨σ.next⟩) :
    q.unordered.Unused schema ⟨σ.next⟩ where
  source := by
    have hsame : q.unordered.occurrences = q.occurrences := by
      rw [Query.occurrences_eq, Query.occurrences_eq]
      rfl
    exact Query.not_mem_ids (hsame ▸ hσ.invariant.below _ hq)
  reference := hreference

section Outside

variable {schema : Schema} {q : Query} {next : Nat}

/-- Counting from outside names one occurrence more, the unnamed one that the query stands in. -/
theorem Query.occurrences_countFromOutside :
    (q.countFromOutside.run next).1.occurrences = ⟨⟨next⟩, none, false⟩ :: q.occurrences := rfl

/-- Counting from outside demands that the star's source is in scope, and then what the query
demands inside that FROM clause. -/
theorem Query.demands_countFromOutside (scope : Scope) (together : List SourceId)
    (outer : List Frame) : (q.countFromOutside.run next).1.demands scope together outer =
      .reference (⟨[⟨next⟩], together⟩ :: outer) ⟨next⟩ "*" :: q.demands scope together outer := by
  show Query.demands scope together outer ⟨[.expr (.count (.star ⟨next⟩))], false,
    some (.subquery ⟨next⟩ q none), none, [], none, [], false, none⟩ = _
  simp only [Query.demands, Clauses.readsWhole, ResultColumn.demandsAll, ResultColumn.demands,
    Expr.demands, Source.demandsColumns, Source.demandsClause, Source.demands, Expr.demandsOf,
    Expr.demandsAll, OrderingTerm.demandsAll, List.append_nil, Bool.false_eq_true, if_false]
  rfl

/-- **Counting from outside demands what the query demands**, and what is new is met. -/
theorem Query.checks_countFromOutside (hunused : q.Unused schema ⟨next⟩) :
    forM ((q.countFromOutside.run next).1.allDemands schema) (Demand.check schema) =
      forM (q.allDemands schema) (Demand.check schema) := by
  have hreference := hunused.reference
  unfold Query.allDemands Demand.inside Scope.enter at hreference ⊢
  rw [Query.occurrences_countFromOutside]
  have hresolve : Naming.resolve (Scope.outermost schema).visible
      (⟨⟨next⟩, none, false⟩ :: q.occurrences) = _ :=
    Naming.resolve_cons_unnamed rfl hunused.source
  rw [List.forM_cons, List.forM_cons, Demand.check, Demand.check, hresolve]
  cases hnaming : Naming.resolve (Scope.outermost schema).visible q.occurrences with
  | error e => rfl
  | ok naming =>
      rw [hnaming] at hreference
      have hinner : ∀ d ∈ q.demands ⟨schema, [naming]⟩ q.namedIds [], ¬d.RefersTo ⟨next⟩ :=
        fun d hd => hreference d (List.mem_cons_of_mem _ hd)
      have hnamed : NamedAlike ⟨next⟩ q.namedIds (⟨next⟩ :: q.namedIds) := fun source hne => by
        rw [List.mem_cons]
        exact ⟨Or.inr, fun h => h.resolve_left hne⟩
      -- The unnamed source is in use under no name.
      have halike : Demand.AllAlike ⟨next⟩ (q.demands ⟨schema, [naming]⟩ q.namedIds [])
          (q.demands ⟨schema, [(⟨next⟩, none) :: naming]⟩ (⟨next⟩ :: q.namedIds) []) :=
        q.demands_alike (by rfl) hnamed (.refl ⟨next⟩ [])
      have hchecks := Demand.checks_alike schema halike hinner
      rw [map_ok, ok_bind, ok_bind]
      show forM ((q.countFromOutside.run next).1.demands ⟨schema, [(⟨next⟩, none) :: naming]⟩
        (⟨next⟩ :: q.namedIds) []) (Demand.check schema) =
          forM (q.demands ⟨schema, [naming]⟩ q.namedIds []) (Demand.check schema)
      rw [Query.demands_countFromOutside, List.forM_cons, hchecks, Demand.check,
        if_pos (Or.inl ⟨_, List.mem_cons_self .., List.mem_singleton_self _⟩)]
      rfl

/-- **What keeps a query from being written keeps it from being counted from outside**, with the
same error. -/
theorem Query.fragment_error_from_outside (hunused : q.Unused schema ⟨next⟩) {e : QueryError}
    (h : q.fragment schema = .error e) :
    (q.countFromOutside.run next).1.fragment schema = .error e := by
  have hcounting := (q.countFromOutside.run next).1.fragment_follows schema
  have hown := q.fragment_follows schema
  unfold Follows at hcounting hown
  -- The same demands are checked in the same order, so the first that fails is the same.
  rw [Query.checks_countFromOutside hunused, ← hown, h] at hcounting
  cases hfragment : (q.countFromOutside.run next).1.fragment schema with
  | error other =>
      rw [hfragment] at hcounting
      cases hcounting
      rfl
  | ok f =>
      rw [hfragment] at hcounting
      cases hcounting

/-! ## The same text from outside -/

/-- What the statement of a query without an ordering is, it is without its ordering. -/
theorem Query.statement_unordered {s : Statement}
    (h : q.unordered.statement schema = .ok s) : s.unordered = s := by
  obtain ⟨_, _, hresolve⟩ := bind_eq_ok.mp h
  obtain ⟨terms, hterms, horderings⟩ := (Query.resolve_eq_ok.mp hresolve).orderings
  cases hterms
  obtain ⟨_, _, _, _, _, _, _, orderings, _⟩ := s
  cases horderings
  rfl

/-- The count around a statement has the text of the statement between its parentheses, and its
arguments. -/
theorem Sql.Statement.build_from_outside (id : SourceId) (occurrence : Occurrence) (s : Statement) :
    (Statement.aggregate (.countRows id) (some (.query occurrence s none)) none).write.build =
      (fun t : BoundSql => ⟨"SELECT COUNT(*) FROM (" ++ t.sql ++ ")", t.arguments⟩) <$>
        s.write.build := by
  let front : Fragment := token .select ++ call "COUNT" (token .star) ++ token .from
  -- The count is some text in front of the statement in parentheses, without arguments of its own.
  have hwrite : (Statement.aggregate (.countRows id) (some (.query occurrence s none)) none).write =
      front ++ s.write.parens := by
    have hcounting : Statement.aggregate (.countRows id) (some (.query occurrence s none)) none =
      (Statement.aggregate (.countRows id) (some (.query occurrence s none)) none).counting
        (.countRows id) := rfl
    rw [hcounting, Statement.write_counting]
    simp only [front, Statement.clauses, Statement.aggregate, Term.write, From.writeClause,
      From.write, Clauses.querySource, Term.writeClause, append_empty, append_assoc]
  have htext :
      (front ++ s.write.parens).text = "SELECT COUNT(*) FROM (" ++ s.write.text ++ ")" := by
    have hgap : gap front s.write.parens = " " := rfl
    have hfront : front.text = "SELECT COUNT(*) FROM" := by decide +kernel
    rw [text_append, text_parens, hgap, hfront, ← String.append_assoc, ← String.append_assoc]
    rfl
  have harguments : (front ++ s.write.parens).arguments = s.write.arguments := by
    have henclosed := arguments_enclosed (front ++ token .openParen) s.write (token .closeParen)
      (by decide) (by decide)
    rw [← henclosed]
    simp only [parens, append_assoc]
  rw [hwrite, build_eq, build_eq, htext, harguments]
  cases s.write.arguments <;> rfl

/-- **Counted from outside, a query is compiled as it is.** -/
theorem Query.compile_from_outside (hunused : q.unordered.Unused schema ⟨next⟩) :
    (q.unordered.countFromOutside.run next).1.compile schema =
      (fun t : BoundSql => ⟨"SELECT COUNT(*) FROM (" ++ t.sql ++ ")", t.arguments⟩) <$>
        q.unordered.compile schema := by
  cases hstatement : q.unordered.statement schema with
  -- A query that cannot be written fails inside the count as it does by itself.
  | error e =>
      have hfragment : q.unordered.fragment schema = .error e := by
        rw [Query.fragment_eq_statement, hstatement]
        rfl
      rw [Query.compile, Query.fragment_error_from_outside hunused hfragment, Query.compile,
        hfragment]
      rfl
  | ok s =>
      obtain ⟨occurrence, hcounting⟩ := Query.statement_from_outside hstatement hunused.source
      have hcounting : (q.unordered.countFromOutside.run next).1.statement schema =
          .ok (Statement.aggregate (.countRows ⟨next⟩) (some (.query occurrence s none)) none) :=
        Query.statement_unordered hstatement ▸ hcounting
      rw [Query.compile_eq_statement, Query.compile_eq_statement, hstatement, hcounting, ok_bind,
        ok_bind, Statement.build_from_outside]

end Outside

/-! ## Counting queries -/

/-- **Deriving the count of a query never breaks it.** A counting query has one column. Counted from
outside, a query is compiled as it is without its ordering, between the parentheses of the count,
with the same arguments, and fails to compile with the same error. Counted in place, a query that
compiles is counted by a query that compiles, over the same clauses. The id that is drawn for the
count must be new. -/
theorem Query.compile_countQuery (schema : Schema) (q : Query) (next : Nat)
    (hunused : q.unordered.Unused schema ⟨next⟩) :
    (q.countQuery.run next).1.width schema = .ok 1 ∧
    (q.countedInPlace? = none → (q.countQuery.run next).1.compile schema =
      (fun t : BoundSql => ⟨"SELECT COUNT(*) FROM (" ++ t.sql ++ ")", t.arguments⟩) <$>
        q.unordered.compile schema) ∧
    (q.countedInPlace?.isSome = true → ∀ sql, q.compile schema = .ok sql →
      ∃ s other, q.statement schema = .ok s ∧
        (q.countQuery.run next).1.compile schema = .ok other ∧ q.CountedInPlace s sql other) := by
  refine ⟨q.width_countQuery schema next, fun hshape => ?_, fun hshape sql hsql => ?_⟩
  · rw [Query.countQuery_eq, hshape]
    exact Query.compile_from_outside hunused
  · obtain ⟨counting, hcounting⟩ := Option.isSome_iff_exists.mp hshape
    rw [Query.countQuery_eq, hcounting]
    exact Query.compile_in_place hcounting hsql

/-- The names that people have, each once and in order. -/
def names : Supply Query := do
  let people ← Query.table "persons"
  return ((people.select [.expr (people.column "name")]).dedup).order
    [⟨people.column "name", none⟩]

/-- People with their leaders are counted from outside, and names are counted in place. -/
theorem ledPeople_count_compiled : (∃ t : BoundSql, ledPeople.unordered.compile people = .ok t ∧
      (ledPeople.countQuery.run 6).1.compile people =
        .ok ⟨"SELECT COUNT(*) FROM (" ++ t.sql ++ ")", t.arguments⟩) ∧
    ∃ sql s other, (names.run 0).1.compile people = .ok sql ∧
      ((names.run 0).1.countQuery.run 1).1.compile people = .ok other ∧
      (names.run 0).1.CountedInPlace s sql other := by
  constructor
  · have hunused : ledPeople.unordered.Unused people ⟨6⟩ :=
      ⟨by decide +kernel, by decide +kernel⟩
    have hshape : ledPeople.countedInPlace? = none := by
      rw [← Option.isNone_iff_eq_none]
      decide +kernel
    obtain ⟨t, ht⟩ : ∃ t, ledPeople.unordered.compile people = .ok t :=
      exists_ok (by decide +kernel)
    obtain ⟨_, houtside, _⟩ := ledPeople.compile_countQuery people 6 hunused
    refine ⟨t, ht, ?_⟩
    rw [houtside hshape, ht]
    rfl
  · have hpeople := Session.Reachable.start.table "persons"
    have hnames := (hpeople.select (List.mem_cons_self ..)
      [.expr (.column (some ⟨0⟩) "name")] fun p hp => by cases hp).dedup (List.mem_cons_self ..)
    have hall := hnames.order (List.mem_cons_self ..) [⟨.column (some ⟨0⟩) "name", none⟩]
      fun p hp => by cases hp
    -- The supply has passed the sources that are named; only the references are looked at.
    have hunused : (names.run 0).1.unordered.Unused people ⟨1⟩ :=
      hall.unused (List.mem_cons_self ..) (by decide +kernel)
    obtain ⟨sql, hsql⟩ : ∃ sql, (names.run 0).1.compile people = .ok sql :=
      exists_ok (by decide +kernel)
    obtain ⟨_, _, hinPlace⟩ := (names.run 0).1.compile_countQuery people 1 hunused
    obtain ⟨s, other, _, hother, hcounted⟩ := hinPlace (by decide +kernel) sql hsql
    exact ⟨sql, s, other, hsql, hother, hcounted⟩

end RelationalQuery
