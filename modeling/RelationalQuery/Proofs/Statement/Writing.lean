/-
  RelationalQuery.Proofs.Statement.Writing — rendering is resolving and writing.

  Rendering and resolution walk a query side by side: each construct looks up the same names and
  fails on the same check, and what rendering puts together is what the tree is written as. So
  a property of the written statement can be read off its tree.

  Main statements:
    * `Query.render_eq_write`: rendering a query is resolving it and writing the tree.
    * `Query.compile_eq_statement`: a compiled statement is its tree, written and built.
-/

import RelationalQuery.Proofs.Outcome
import RelationalQuery.Proofs.Statement.Resolution

namespace RelationalQuery

open Sql Fragment

/-! ## Steps that succeed or fail together -/

/-- One step on either side: the first results correspond by `f`, and so does what follows. -/
theorem bind_eq_map_bind {ε α α' β β' : Type} {x : Except ε α} {x' : Except ε α'}
    {k : α → Except ε β} {k' : α' → Except ε β'} {g : β' → β} (f : α' → α)
    (hx : x = f <$> x') (hk : ∀ a, k (f a) = g <$> k' a) : x >>= k = g <$> (x' >>= k') := by
  subst hx
  cases x' with
  | error e => rfl
  | ok a => exact hk a

/-- Both fail with the same error, or both succeed with results that are related. -/
inductive Together {ε α β : Type} (rel : α → β → Prop) : Except ε α → Except ε β → Prop
  | error (e : ε) : Together rel (.error e) (.error e)
  | ok {a : α} {b : β} (h : rel a b) : Together rel (.ok a) (.ok b)

namespace Together

variable {ε α α' β β' : Type} {rel : α → α' → Prop} {x : Except ε α} {x' : Except ε α'}

/-- What follows a step fails or succeeds together if it does so for related results. -/
theorem bind {rel' : β → β' → Prop} {k : α → Except ε β} {k' : α' → Except ε β'}
    (h : Together rel x x') (hk : ∀ a a', rel a a' → Together rel' (k a) (k' a')) :
    Together rel' (x >>= k) (x' >>= k') := by
  cases h with
  | error e => exact .error e
  | ok h => exact hk _ _ h

/-- Two outcomes go together if, whatever the first step gives, the rest of them does. -/
theorem bind_of {rel' : β → β' → Prop} {k : α → Except ε β} {k' : α → Except ε β'}
    (x : Except ε α) (hk : ∀ a, x = .ok a → Together rel' (k a) (k' a)) :
    Together rel' (x >>= k) (x >>= k') := by
  cases x with
  | error e => exact .error e
  | ok a => exact hk a rfl

theorem bind_same {rel' : β → β' → Prop} {k : α → Except ε β} {k' : α → Except ε β'}
    (x : Except ε α) (hk : ∀ a, Together rel' (k a) (k' a)) :
    Together rel' (x >>= k) (x >>= k') := bind_of x fun a _ => hk a

/-- Outcomes that go together go on to the same. -/
theorem bind_eq {k : α → Except ε β} {k' : α' → Except ε β} (h : Together rel x x')
    (hk : ∀ a a', rel a a' → k a = k' a') : x >>= k = x' >>= k' := by
  cases h with
  | error e => rfl
  | ok h => exact hk _ _ h

theorem symm {rel' : α' → α → Prop} (h : Together rel x x')
    (hrel : ∀ {a a'}, rel a a' → rel' a' a) : Together rel' x' x := by
  cases h with
  | error e => exact .error e
  | ok h => exact .ok (hrel h)

end Together

/-! ## Fragments in sequence -/

theorem Fragment.append_assoc (a b c : Fragment) : a ++ b ++ c = a ++ (b ++ c) :=
  congrArg Fragment.mk (List.append_assoc ..)

theorem Fragment.empty_append (a : Fragment) : Fragment.empty ++ a = a := rfl

theorem Fragment.append_empty (a : Fragment) : a ++ Fragment.empty = a :=
  congrArg Fragment.mk (List.append_nil _)

namespace Sql

theorem Item.writeAll_append (a b : List Item) :
    Item.writeAll (a ++ b) = Item.writeAll a ++ Item.writeAll b := by
  induction a with
  | nil => rfl
  | cons item rest ih => rw [List.cons_append, Item.writeAll, Item.writeAll, ih, List.cons_append]

theorem JoinClause.writeAll_append : (a b : List JoinClause) →
    JoinClause.writeAll (a ++ b) = JoinClause.writeAll a ++ JoinClause.writeAll b
  | [], b => by rw [JoinClause.writeAll, List.nil_append, Fragment.empty_append]
  | ⟨kind, target, mapped, own⟩ :: rest, b => by
      rw [List.cons_append, JoinClause.writeAll, JoinClause.writeAll, writeAll_append rest b,
        Fragment.append_assoc _ _ (JoinClause.writeAll b)]

/-! ## Constructs whose operands are already related -/

@[simp] theorem Term.write_negatedIf (negated : Bool) (t : Term) :
    (Term.negatedIf negated t).write = Clauses.negatedIf negated t.write := by
  cases negated
  · rfl
  · rw [Term.negatedIf, if_pos rfl, Term.write]
    rfl

/-- A column is the written reference to its source. -/
theorem Reference.columnOf_eq (scope : Scope) (source : SourceId) (name : String) :
    Clauses.columnOf scope source name =
      (fun r : Reference => r.write (ident name)) <$> Reference.resolve scope source name := by
  simp [Clauses.columnOf, Reference.resolve, Reference.write]

/-- A star is the written reference to its source. -/
theorem Reference.starOf_eq (scope : Scope) (source : SourceId) :
    Clauses.starOf scope source =
      (fun r : Reference => r.write (token .star)) <$> Reference.resolve scope source "*" := by
  simp [Clauses.starOf, Reference.resolve, Reference.write]

/-- A comparison is written as its resolved operands are. -/
theorem Term.comparison_eq {how : Comparison} {mark : Fragment} (hmark : how.mark = mark)
    (negated : Bool) (lhs rhs : Expr) (left right : Except QueryError Term) :
    Clauses.comparison mark negated lhs rhs (Term.write <$> left) (Term.write <$> right) =
      Term.write <$> Term.compared how negated lhs rhs left right := by
  unfold Clauses.comparison Term.compared
  split
  · simp [Term.write]
  · split
    · simp [Term.write]
    · simp [Term.write, hmark]

/-- The equalities of a mapping are written as they are resolved. -/
theorem Equality.mappingTerms_eq (scope : Scope) (left target : SourceId) :
    (mapping : List (String × String)) →
    Clauses.mappingTerms scope left target mapping =
      List.map Equality.write <$> Equality.resolveAll scope left target mapping
  | [] => rfl
  | (leftColumn, targetColumn) :: rest => by
      simp [Clauses.mappingTerms, Equality.resolveAll, Reference.columnOf_eq,
        mappingTerms_eq scope left target rest, Equality.write]

/-- A join's condition is written as it is resolved. -/
theorem onClause_eq (kind : JoinKind) (mapped : Except QueryError (List Equality))
    (own : Except QueryError (List Term)) :
    Clauses.onClause kind (List.map Equality.write <$> mapped) (Term.writeAll <$> own) =
      (fun p => onClause kind (p.1.map Equality.write ++ Term.writeAll p.2)) <$>
        conditionOf kind mapped own := by
  cases kind with
  | cross => rfl
  | inner => simp [Clauses.onClause, conditionOf, onClause]
  | left => simp [Clauses.onClause, conditionOf, onClause]

/-- A select list is written as its items are resolved. -/
theorem Item.selectList_eq (whole : Bool) (own added : Except QueryError (List Item)) :
    Clauses.selectList whole (Item.writeAll <$> own) (Item.writeAll <$> added) =
      (fun p => joinWith .comma (Item.writeAll p.1 ++ Item.writeAll p.2)) <$>
        itemsOf whole own added := by
  unfold Clauses.selectList itemsOf
  split
  · rfl
  · simp

theorem SortTerm.write_reverseRowIds (scope : Scope) (source : Option Source) :
    SortTerm.writeAll (SortTerm.reverseRowIds scope source) =
      Clauses.reverseRowIds scope source := by
  unfold SortTerm.reverseRowIds Clauses.reverseRowIds
  match source.map Source.root with
  | some (.table ..) => rfl
  | some (.subquery ..) => rfl
  | some (.joinTree ..) => rfl
  | none => rfl

/-- The ordering that a reversed query falls back on is written as it is resolved. -/
theorem SortTerm.writeAll_ordering (scope : Scope) (source : Option Source) (reversed : Bool)
    (terms : List SortTerm) :
    SortTerm.writeAll (if terms.isEmpty && reversed then SortTerm.reverseRowIds scope source
      else terms) =
    if (SortTerm.writeAll terms).isEmpty && reversed then Clauses.reverseRowIds scope source
      else SortTerm.writeAll terms := by
  rw [← SortTerm.write_reverseRowIds]
  cases terms with
  | nil => cases reversed <;> rfl
  | cons first rest => cases first <;> rfl

end Sql

/-! ## The walk over a query

The recursion is that of rendering, so that each case opens one construct on both sides and
closes by what holds of its operands. -/

mutual

/-- **A rendered expression is its resolved term, written**: by induction over it, together with all
that can stand inside it. -/
theorem Expr.render_eq_write (scope : Scope) (negated : Bool) : (e : Expr) →
    e.render scope negated = Term.write <$> e.resolve scope negated
  | .literal sql arguments => by
      rw [Expr.render, Expr.resolve, map_ok, Term.write_negatedIf, Term.write]
  | .value v => by
      rw [Expr.render, Expr.resolve, map_ok, Term.write_negatedIf, Term.write]
  | .column none name => by
      rw [Expr.render, Expr.resolve, map_ok, Term.write_negatedIf, Term.write]
  | .column (some source) name => by
      simp [Expr.render, Expr.resolve, Term.write, Reference.columnOf_eq]
  | .collate e collation => by
      simp [Expr.render, Expr.resolve, Term.write, e.render_eq_write scope]
  | .not e => by
      -- A negation is passed down; no place of the tree stands for it.
      rw [Expr.render, Expr.resolve, e.render_eq_write scope]
  | .equal lhs rhs => by
      rw [Expr.render, Expr.resolve, lhs.render_eq_write scope, rhs.render_eq_write scope]
      exact Term.comparison_eq (by cases negated <;> rfl) ..
  | .notEqual lhs rhs => by
      rw [Expr.render, Expr.resolve, lhs.render_eq_write scope, rhs.render_eq_write scope]
      exact Term.comparison_eq (by cases negated <;> rfl) ..
  | .is lhs rhs => by
      rw [Expr.render, Expr.resolve, lhs.render_eq_write scope, rhs.render_eq_write scope]
      exact Term.comparison_eq (by cases negated <;> rfl) ..
  | .isNot lhs rhs => by
      rw [Expr.render, Expr.resolve, lhs.render_eq_write scope, rhs.render_eq_write scope]
      exact Term.comparison_eq (by cases negated <;> rfl) ..
  | .prefixOp op e => by
      simp [Expr.render, Expr.resolve, Term.write, e.render_eq_write scope]
  | .infixOp op lhs rhs => by
      simp [Expr.render, Expr.resolve, Term.write, lhs.render_eq_write scope,
        rhs.render_eq_write scope]
  | .and terms => by
      simp [Expr.render, Expr.resolve, Term.write, Expr.renderAll_eq_write scope terms]
  | .or terms => by
      simp [Expr.render, Expr.resolve, Term.write, Expr.renderAll_eq_write scope terms]
  | .inList e items => by
      rw [Expr.render, Expr.resolve, Clauses.listMembership, e.render_eq_write scope,
        Expr.renderAll_eq_write scope items]
      split
      · rfl
      · simp [Term.write]
  | .inQuery e query => by
      simp [Expr.render, Expr.resolve, Term.write, e.render_eq_write scope,
        query.render_eq_write]
  | .exists query => by
      simp [Expr.render, Expr.resolve, Term.write, query.render_eq_write]
  | .between e low high => by
      simp [Expr.render, Expr.resolve, Term.write, e.render_eq_write scope,
        low.render_eq_write scope, high.render_eq_write scope]
  | .call function arguments => by
      simp [Expr.render, Expr.resolve, Term.write, Expr.renderAll_eq_write scope arguments]
  | .count counted => by
      -- What is counted is written without the call, so the call is put around both sides.
      have h := congrArg (Clauses.negatedIf negated <$> ·) (counted.renderCounted_eq_write scope)
      simpa [Expr.render, Expr.resolve] using h
  | .countDistinct e => by
      simp [Expr.render, Expr.resolve, Term.write, e.render_eq_write scope]

theorem Expr.renderAll_eq_write (scope : Scope) : (es : List Expr) →
    Expr.renderAll scope es = Term.writeAll <$> Expr.resolveAll scope es
  | [] => rfl
  | e :: rest => by
      simp [Expr.renderAll, Expr.resolveAll, Term.writeAll, e.render_eq_write scope,
        Expr.renderAll_eq_write scope rest]

theorem Expr.renderClause_eq_write (scope : Scope) (keyword : Token) : (e : Option Expr) →
    Expr.renderClause scope keyword e =
      Term.writeClause keyword <$> Expr.resolveClause scope e
  | some condition => by
      simp [Expr.renderClause, Expr.resolveClause, Clauses.behind, Term.writeClause,
        condition.render_eq_write scope]
  | none => rfl

theorem ResultColumn.renderCounted_eq_write (scope : Scope) : (column : ResultColumn) →
    Fragment.call "COUNT" <$> column.renderCounted scope =
      Term.write <$> column.resolveCounted scope
  | .star source => by
      simp [ResultColumn.renderCounted, ResultColumn.resolveCounted, Term.write]
  | .expr e => by
      simp [ResultColumn.renderCounted, ResultColumn.resolveCounted, Term.write,
        e.render_eq_write scope]
  | .aliased e label => by
      simp [ResultColumn.renderCounted, ResultColumn.resolveCounted, Term.write,
        e.render_eq_write scope]

theorem ResultColumn.render_eq_write (scope : Scope) : (column : ResultColumn) →
    column.render scope = Item.write <$> column.resolve scope
  | .star source => by
      simp [ResultColumn.render, ResultColumn.resolve, Item.write, Reference.starOf_eq]
  | .expr e => by
      simp [ResultColumn.render, ResultColumn.resolve, Item.write, e.render_eq_write scope]
  | .aliased e label => by
      simp [ResultColumn.render, ResultColumn.resolve, Item.write, e.render_eq_write scope]

theorem ResultColumn.renderAll_eq_write (scope : Scope) : (columns : List ResultColumn) →
    ResultColumn.renderAll scope columns =
      Item.writeAll <$> ResultColumn.resolveAll scope columns
  | [] => rfl
  | column :: rest => by
      simp [ResultColumn.renderAll, ResultColumn.resolveAll, Item.writeAll,
        column.render_eq_write scope, ResultColumn.renderAll_eq_write scope rest]

theorem OrderingTerm.renderAll_eq_write (scope : Scope) (reversed : Bool) :
    (terms : List OrderingTerm) → OrderingTerm.renderAll scope reversed terms =
      SortTerm.writeAll <$> OrderingTerm.resolveAll scope reversed terms
  | [] => rfl
  | ⟨e, direction⟩ :: rest => by
      simp [OrderingTerm.renderAll, OrderingTerm.resolveAll, SortTerm.writeAll,
        e.render_eq_write scope, OrderingTerm.renderAll_eq_write scope reversed rest]

theorem Query.render_eq_write (scope : Scope) : (q : Query) →
    q.render scope = Statement.write <$> q.resolve scope
  | ⟨selection, distinct, source, filter, groupBy, having, orderings, reversed, limit⟩ => by
      rw [Query.render, Query.resolve]
      -- Both sides take the clauses in one order, so that they fail at the same one.
      refine bind_eq_map_bind
        (fun p => joinWith .comma (Item.writeAll p.1 ++ Item.writeAll p.2)) ?_ fun columns => ?_
      · rw [← Item.selectList_eq, ResultColumn.renderAll_eq_write scope selection,
          Source.renderColumns_eq_write scope source]
      refine bind_eq_map_bind From.writeClause (Source.renderClause_eq_write scope source)
        fun clause => ?_
      refine bind_eq_map_bind (Term.writeClause .where)
        (Expr.renderClause_eq_write scope .where filter) fun rows => ?_
      refine bind_eq_map_bind Term.writeAll (Expr.renderAll_eq_write scope groupBy)
        fun groups => ?_
      refine bind_eq_map_bind (Term.writeClause .having)
        (Expr.renderClause_eq_write scope .having having) fun groupRows => ?_
      refine bind_eq_map_bind SortTerm.writeAll
        (OrderingTerm.renderAll_eq_write scope reversed orderings) fun terms => ?_
      rw [map_pure, Statement.write, Clauses.orderClause, SortTerm.writeAll_ordering]

theorem Source.renderColumns_eq_write (scope : Scope) : (source : Option Source) →
    Source.renderColumns scope source = Item.writeAll <$> Source.resolveColumns scope source
  | some (.joinTree _ _ joins) => by
      rw [Source.renderColumns, Source.resolveColumns, Join.renderColumns_eq_write scope joins]
  | some (.table ..) => rfl
  | some (.subquery ..) => rfl
  | none => rfl

theorem Source.renderClause_eq_write (scope : Scope) : (source : Option Source) →
    Source.renderClause scope source = From.writeClause <$> Source.resolveClause scope source
  | some source => by
      simp [Source.renderClause, Source.resolveClause, Clauses.behind, From.writeClause,
        source.render_eq_write scope]
  | none => rfl

theorem Join.renderColumns_eq_write (scope : Scope) : (joins : List Join) →
    Join.renderColumns scope joins = Item.writeAll <$> Join.resolveColumns scope joins
  | [] => rfl
  | ⟨included, _, ⟨_, target, _, _, selection, joins⟩⟩ :: rest => by
      rw [Join.renderColumns, Join.resolveColumns, Join.renderColumns_eq_write scope joins,
        Join.renderColumns_eq_write scope rest]
      cases included
      · simp [ok_bind, Item.writeAll_append]
      · simp [ResultColumn.renderAll_eq_write scope (selection target.id), Item.writeAll_append]

theorem Source.render_eq_write (scope : Scope) : (s : Source) →
    s.render scope = From.write <$> s.resolve scope
  | .table id table label => by
      rw [Source.render, Source.resolve, map_ok, From.write]
  | .subquery id query label => by
      simp [Source.render, Source.resolve, From.write, query.render_eq_write scope]
  | .joinTree id left joins => by
      simp [Source.render, Source.resolve, From.write, left.render_eq_write scope,
        Join.renderAll_eq_write scope _ _ joins]

theorem Join.renderAll_eq_write (scope : Scope) (left : Clauses.Anchor) (afterOptional : Bool) :
    (joins : List Join) → Join.renderAll scope left afterOptional joins =
      JoinClause.writeAll <$> Join.resolveAll scope left afterOptional joins
  | [] => rfl
  | ⟨_, kind, ⟨name, target, mapping, condition, _, joins⟩⟩ :: rest => by
      simp [Join.renderAll, Join.resolveAll, JoinClause.writeAll, JoinClause.writeAll_append,
        target.render_eq_write scope, Equality.mappingTerms_eq, onClause_eq,
        Expr.renderAll_eq_write scope (condition left.id target.id),
        Join.renderAll_eq_write scope _ _ joins, Join.renderAll_eq_write scope _ _ rest,
        Fragment.append_assoc]

end

/-! ## Statements that stand alone -/

/-- The fragment of a query is its statement, written. -/
theorem Query.fragment_eq_statement (schema : Schema) (q : Query) :
    q.fragment schema = Statement.write <$> q.statement schema := by
  unfold Query.fragment Query.statement
  simp [Query.render_eq_write]

/-- **A compiled statement is its tree, written and built**: every compiled text is the text of
a tree, and compilation fails just when there is no tree or its arguments clash. -/
theorem Query.compile_eq_statement (schema : Schema) (q : Query) :
    q.compile schema = (q.statement schema >>= fun s => s.write.build) := by
  rw [Query.compile, Query.fragment_eq_statement]
  cases q.statement schema <;> rfl

/-- A statement that compiles has a tree. -/
theorem Query.statement_of_compile {schema : Schema} {q : Query} {sql : BoundSql}
    (h : q.compile schema = .ok sql) :
    ∃ s, q.statement schema = .ok s ∧ s.write.build = .ok sql := by
  rw [Query.compile_eq_statement] at h
  cases hs : q.statement schema with
  | error e =>
      rw [hs] at h
      cases h
  | ok s =>
      rw [hs] at h
      exact ⟨s, rfl, h⟩

end RelationalQuery
