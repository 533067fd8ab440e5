/-
  RelationalQuery.Proofs.Failure.Mappings — the columns of mappings are those of their tables.

  Every join that is rendered is checked before it is written, a cross join as well, though its
  mapping is not. What is checked depends on the join and on what stands on its left: on the root
  of the FROM tree, or on the target of the join that it hangs on. The tables are those that the
  leaves read, whatever they are called in the statement, and a subquery is not checked.

  Main definitions:
    * `Query.joinsWithin`: the joins that are rendered, in every FROM tree of a query.
    * `Schema.Lacks`, `PlacedJoin.Lacks`: the first column that a table does not have.

  Main statements:
    * `Query.joins_of_compile`: what compiles demands these joins, in order.
    * `Query.mappings_checked`: what compiles has its mapping columns, and how a missing one fails.
-/

import RelationalQuery.Proofs.Failure.Required

namespace RelationalQuery

/-! ## The joins of a query -/

/-- The joins of two compared operands, of which one may be left out. -/
def PlacedJoin.ofComparison (lhs rhs : Expr) (left right : List PlacedJoin) : List PlacedJoin :=
  if rhs.isNullValue then left else if lhs.isNullValue then right else left ++ right

mutual

/-- The joins in the subqueries of an expression. -/
def Expr.joinsWithin : Expr → List PlacedJoin
  | .literal _ _ | .value _ | .column _ _ => []
  | .collate e _ | .not e | .prefixOp _ e | .countDistinct e => e.joinsWithin
  | .equal lhs rhs | .notEqual lhs rhs | .is lhs rhs | .isNot lhs rhs =>
    PlacedJoin.ofComparison lhs rhs lhs.joinsWithin rhs.joinsWithin
  | .infixOp _ lhs rhs => lhs.joinsWithin ++ rhs.joinsWithin
  | .and es | .or es | .call _ es => Expr.joinsWithinAll es
  | .inList e items => if items.isEmpty then [] else e.joinsWithin ++ Expr.joinsWithinAll items
  | .inQuery e query => e.joinsWithin ++ query.joinsWithin
  | .exists query => query.joinsWithin
  | .between e low high => e.joinsWithin ++ (low.joinsWithin ++ high.joinsWithin)
  | .count counted => counted.joinsWithin

/-- The joins in the subqueries of a list of expressions. -/
def Expr.joinsWithinAll : List Expr → List PlacedJoin
  | [] => []
  | e :: rest => e.joinsWithin ++ Expr.joinsWithinAll rest

def Expr.joinsWithinOf : Option Expr → List PlacedJoin
  | some condition => condition.joinsWithin
  | none => []

/-- The joins in the subqueries of an entry of a select list. -/
def ResultColumn.joinsWithin : ResultColumn → List PlacedJoin
  | .star _ => []
  | .expr e | .aliased e _ => e.joinsWithin

def ResultColumn.joinsWithinAll : List ResultColumn → List PlacedJoin
  | [] => []
  | column :: rest => column.joinsWithin ++ ResultColumn.joinsWithinAll rest

def OrderingTerm.joinsWithinAll : List OrderingTerm → List PlacedJoin
  | [] => []
  | ⟨e, _⟩ :: rest => e.joinsWithin ++ OrderingTerm.joinsWithinAll rest

/-- The joins that rendering a query comes to: in its select list, in its FROM tree, and in the
clauses behind it. -/
def Query.joinsWithin : Query → List PlacedJoin
  | ⟨selection, _, source, filter, groupBy, having, orderings, _, _⟩ =>
    (if Clauses.readsWhole selection source then [] else
      ResultColumn.joinsWithinAll selection ++ Source.joinsWithinColumns source) ++
    (Source.joinsWithinClause source ++
      (Expr.joinsWithinOf filter ++
        (Expr.joinsWithinAll groupBy ++
          (Expr.joinsWithinOf having ++ OrderingTerm.joinsWithinAll orderings))))

/-- The joins in the columns that the joins of a FROM clause add. -/
def Source.joinsWithinColumns : Option Source → List PlacedJoin
  | some (.joinTree _ _ joins) => Join.joinsWithinColumns joins
  | _ => []

def Source.joinsWithinClause : Option Source → List PlacedJoin
  | some source => source.joinsWithin
  | none => []

/-- The joins in what the columns of joins come to, and of those below them. -/
def Join.joinsWithinColumns : List Join → List PlacedJoin
  | [] => []
  | ⟨included, _, ⟨_, target, _, _, selection, joins⟩⟩ :: rest =>
    (if included then ResultColumn.joinsWithinAll (selection target.id) else []) ++
      (Join.joinsWithinColumns joins ++ Join.joinsWithinColumns rest)

/-- The joins of a FROM tree, and of the subqueries in it. -/
def Source.joinsWithin : Source → List PlacedJoin
  | .table _ _ _ => []
  | .subquery _ query _ => query.joinsWithin
  | .joinTree _ left joins =>
    left.joinsWithin ++ Join.joinsWithin [] (Clauses.anchor left) joins

/-- Joins on one left source, below joins of the given kinds. The left source of the joins below
one of them is its target. -/
def Join.joinsWithin (above : List JoinKind) (left : Clauses.Anchor) : List Join → List PlacedJoin
  | [] => []
  | ⟨_, kind, ⟨name, target, mapping, condition, selection, joins⟩⟩ :: rest =>
    ⟨above, left, kind, ⟨name, target, mapping, condition, selection, joins⟩⟩ ::
      (target.joinsWithin ++
        ((if kind = .cross then [] else
            Expr.joinsWithinAll (condition left.id target.id)) ++
          (Join.joinsWithin (kind :: above) (Clauses.anchor target) joins ++
            Join.joinsWithin above left rest)))

end

/-! ## Joins among the demands -/

/-- The join that a demand is about, if it is about one. -/
def Demand.join? : Demand → Option PlacedJoin
  | .join placed => some placed
  | _ => none

/-- The joins among the demands, if these are met. -/
def Lists (schema : Schema) (ds : List Demand) (joins : List PlacedJoin) : Prop :=
  (∀ d ∈ ds, d.check schema = .ok ()) → ds.filterMap Demand.join? = joins

section Lists

variable {schema : Schema} {ds es : List Demand} {joins others : List PlacedJoin}

/-- Where nothing is demanded there are no joins. -/
theorem Lists.nil : Lists schema [] [] := fun _ => rfl

/-- The joins among demands in a row stand in a row. -/
theorem Lists.append (h : Lists schema ds joins) (k : Lists schema es others) :
    Lists schema (ds ++ es) (joins ++ others) := by
  intro hmet
  obtain ⟨hds, hes⟩ := List.forall_mem_append.mp hmet
  rw [List.filterMap_append, h hds, k hes]

/-- A join among the demands is the first of the joins. -/
theorem Lists.join (placed : PlacedJoin) (h : Lists schema ds joins) :
    Lists schema (.join placed :: ds) (placed :: joins) := by
  intro hmet
  obtain ⟨_, hds⟩ := List.forall_mem_cons.mp hmet
  exact congrArg (placed :: ·) (h hds)

/-- A reference is no join. -/
theorem Lists.reference (chain : List Frame) (source : SourceId) (column : String)
    (h : Lists schema ds joins) : Lists schema (.reference chain source column :: ds) joins := by
  intro hmet
  obtain ⟨_, hds⟩ := List.forall_mem_cons.mp hmet
  rw [List.filterMap_cons_none rfl, h hds]

/-- The demands of a mapping are references, so there are no joins among them. -/
theorem Lists.ofMapping (chain : List Frame) (left target : SourceId) :
    (mapping : List (String × String)) →
      Lists schema (Demand.ofMapping chain left target mapping) []
  | [] => .nil
  | (_, _) :: rest =>
    .reference _ _ _ (.reference _ _ _ (Lists.ofMapping chain left target rest))

/-- The joins among the demands of compared operands are those of the operands that are rendered. -/
theorem Lists.comparison (lhs rhs : Expr) (h : Lists schema ds joins)
    (k : Lists schema es others) : Lists schema (Demand.ofComparison lhs rhs ds es)
      (PlacedJoin.ofComparison lhs rhs joins others) := by
  unfold Demand.ofComparison PlacedJoin.ofComparison
  split
  · exact h
  · split
    · exact k
    · exact h.append k

/-- A statement whose names can be chosen is rendered. -/
theorem Lists.inside {scope : Scope} {os : List Occurrence} {within : Scope → List Demand}
    (h : ∀ inner, Lists schema (within inner) joins) :
    Lists schema (Demand.inside scope os within) joins := by
  intro hmet
  obtain ⟨hnaming, hwithin⟩ := List.forall_mem_cons.mp hmet
  obtain ⟨naming, hresolve, _⟩ := bind_eq_ok.mp hnaming
  have henter : ∃ inner, scope.enter os = .ok inner := by
    rw [Scope.enter, hresolve]
    exact ⟨_, rfl⟩
  obtain ⟨inner, hinner⟩ := henter
  rw [hinner] at hwithin
  rw [Demand.inside, List.filterMap_cons_none rfl, hinner]
  exact h inner hwithin

end Lists

-- One walk for all scopes: a subquery is rendered in a scope that is known only once its names are
-- chosen, and the joins in it are the same in each.

mutual

/-- The joins among the demands of an expression are those in its subqueries: by induction over it.
-/
theorem Expr.lists {schema : Schema} {scope : Scope} {chain : List Frame} : (e : Expr) →
    Lists schema (e.demands scope chain) e.joinsWithin
  | .literal _ _ | .value _ | .column none _ => by
      rw [Expr.demands, Expr.joinsWithin]
      exact .nil
  | .column (some _) _ => by
      rw [Expr.demands, Expr.joinsWithin]
      exact .reference _ _ _ .nil
  | .collate e _ | .not e | .prefixOp _ e | .countDistinct e => by
      rw [Expr.demands, Expr.joinsWithin]
      exact e.lists
  | .equal lhs rhs | .notEqual lhs rhs | .is lhs rhs | .isNot lhs rhs => by
      rw [Expr.demands, Expr.joinsWithin]
      exact .comparison lhs rhs lhs.lists rhs.lists
  | .infixOp _ lhs rhs => by
      rw [Expr.demands, Expr.joinsWithin]
      exact lhs.lists.append rhs.lists
  | .and es | .or es | .call _ es => by
      rw [Expr.demands, Expr.joinsWithin]
      exact Expr.listsAll es
  | .inList e items => by
      rw [Expr.demands, Expr.joinsWithin]
      split
      · exact .nil
      · exact e.lists.append (Expr.listsAll items)
  | .inQuery e query => by
      rw [Expr.demands, Expr.joinsWithin]
      exact e.lists.append (.inside fun _ => query.lists)
  | .exists query => by
      rw [Expr.demands, Expr.joinsWithin]
      exact .inside fun _ => query.lists
  | .between e low high => by
      rw [Expr.demands, Expr.joinsWithin]
      exact e.lists.append (low.lists.append high.lists)
  | .count counted => by
      rw [Expr.demands, Expr.joinsWithin]
      exact counted.lists

/-- So are those of the expressions in a list. -/
theorem Expr.listsAll {schema : Schema} {scope : Scope} {chain : List Frame} :
    (es : List Expr) → Lists schema (Expr.demandsAll scope chain es) (Expr.joinsWithinAll es)
  | [] => .nil
  | e :: rest => by
      rw [Expr.demandsAll, Expr.joinsWithinAll]
      exact e.lists.append (Expr.listsAll rest)

/-- So are those of the condition of a clause. -/
theorem Expr.listsOf {schema : Schema} {scope : Scope} {chain : List Frame} :
    (e : Option Expr) → Lists schema (Expr.demandsOf scope chain e) (Expr.joinsWithinOf e)
  | none => .nil
  | some condition => by
      rw [Expr.demandsOf, Expr.joinsWithinOf]
      exact condition.lists

/-- So are those of a result column. -/
theorem ResultColumn.lists {schema : Schema} {scope : Scope} {chain : List Frame} :
    (column : ResultColumn) → Lists schema (column.demands scope chain) column.joinsWithin
  | .star _ => by
      rw [ResultColumn.demands, ResultColumn.joinsWithin]
      exact .reference _ _ _ .nil
  | .expr e | .aliased e _ => by
      rw [ResultColumn.demands, ResultColumn.joinsWithin]
      exact e.lists

/-- So are those of a select list. -/
theorem ResultColumn.listsAll {schema : Schema} {scope : Scope} {chain : List Frame} :
    (columns : List ResultColumn) → Lists schema (ResultColumn.demandsAll scope chain columns)
      (ResultColumn.joinsWithinAll columns)
  | [] => .nil
  | column :: rest => by
      rw [ResultColumn.demandsAll, ResultColumn.joinsWithinAll]
      exact column.lists.append (ResultColumn.listsAll rest)

/-- So are those of an ordering. -/
theorem OrderingTerm.listsAll {schema : Schema} {scope : Scope} {chain : List Frame} :
    (terms : List OrderingTerm) → Lists schema (OrderingTerm.demandsAll scope chain terms)
      (OrderingTerm.joinsWithinAll terms)
  | [] => .nil
  | ⟨e, _⟩ :: rest => by
      rw [OrderingTerm.demandsAll, OrderingTerm.joinsWithinAll]
      exact e.lists.append (OrderingTerm.listsAll rest)

/-- **The joins among the demands of a statement**, whatever the scope. -/
theorem Query.lists {schema : Schema} {scope : Scope} {together : List SourceId}
    {outer : List Frame} : (q : Query) →
    Lists schema (q.demands scope together outer) q.joinsWithin
  | ⟨selection, _, source, filter, groupBy, having, orderings, _, _⟩ => by
      rw [Query.demands, Query.joinsWithin]
      refine Lists.append ?_ ((Source.listsClause source).append ((Expr.listsOf filter).append
        ((Expr.listsAll groupBy).append ((Expr.listsOf having).append
          (OrderingTerm.listsAll orderings)))))
      split
      · exact .nil
      · exact (ResultColumn.listsAll selection).append (Source.listsColumns source)

/-- The joins among the demands of added columns are those in the subqueries of these. -/
theorem Source.listsColumns {schema : Schema} {scope : Scope} {chain : List Frame} :
    (source : Option Source) → Lists schema (Source.demandsColumns scope chain source)
      (Source.joinsWithinColumns source)
  | none | some (.table _ _ _) | some (.subquery _ _ _) => .nil
  | some (.joinTree _ _ joins) => by
      rw [Source.demandsColumns, Source.joinsWithinColumns]
      exact Join.listsColumns joins

/-- The joins among the demands of a FROM clause are those of its tree. -/
theorem Source.listsClause {schema : Schema} {scope : Scope} {frame : Frame}
    {outer : List Frame} : (source : Option Source) →
    Lists schema (Source.demandsClause scope frame outer source) (Source.joinsWithinClause source)
  | none => .nil
  | some source => by
      rw [Source.demandsClause, Source.joinsWithinClause]
      exact source.lists

/-- So are those of the columns that joins and the joins below them add. -/
theorem Join.listsColumns {schema : Schema} {scope : Scope} {chain : List Frame} :
    (joins : List Join) → Lists schema (Join.demandsColumns scope chain joins)
      (Join.joinsWithinColumns joins)
  | [] => .nil
  | ⟨included, _, ⟨_, target, _, _, selection, joins⟩⟩ :: rest => by
      rw [Join.demandsColumns, Join.joinsWithinColumns]
      refine Lists.append ?_ ((Join.listsColumns joins).append (Join.listsColumns rest))
      split
      · exact ResultColumn.listsAll _
      · exact .nil

/-- The joins among the demands of a source are those of its tree and of the subqueries in it. -/
theorem Source.lists {schema : Schema} {scope : Scope} {frame : Frame} {outer : List Frame} :
    (s : Source) → Lists schema (s.demands scope frame outer) s.joinsWithin
  | .table _ _ _ => by
      rw [Source.demands, Source.joinsWithin]
      exact .nil
  | .subquery _ query _ => by
      rw [Source.demands, Source.joinsWithin]
      exact query.lists
  | .joinTree _ left joins => by
      rw [Source.demands, Source.joinsWithin]
      exact left.lists.append (Join.lists [] _ joins)

/-- The joins among the demands of joins are these themselves, each before those below it. -/
theorem Join.lists {schema : Schema} {scope : Scope} {frame : Frame} {outer : List Frame}
    (above : List JoinKind) (left : Clauses.Anchor) : (joins : List Join) →
    Lists schema (Join.demands scope frame outer above left joins)
      (Join.joinsWithin above left joins)
  | [] => .nil
  | ⟨_, kind, ⟨name, target, mapping, condition, selection, joins⟩⟩ :: rest => by
      rw [Join.demands, Join.joinsWithin]
      refine .join _ (target.lists.append (Lists.append ?_
        ((Join.lists (kind :: above) _ joins).append (Join.lists above left rest))))
      split
      · exact .nil
      · exact (Lists.ofMapping _ left.id target.id mapping).append (Expr.listsAll _)

end

/-- **What compiles demands the joins of its FROM trees**, in order. -/
theorem Query.joins_of_compile {schema : Schema} {q : Query} {sql : BoundSql}
    (h : q.compile schema = .ok sql) :
    (q.allDemands schema).filterMap Demand.join? = q.joinsWithin :=
  Lists.inside (fun _ => q.lists) (Query.check_of_compile h)

/-! ## Missing columns -/

/-- The schema knows the table, and every one of the columns is one of the table's. -/
def Schema.HasAll (schema : Schema) (table : String) (columns : List String) : Prop :=
  ∃ known, schema.columns table = .ok known ∧
    ∀ column ∈ columns, ∃ listed ∈ known, Identifier.Same listed column

/-- The schema knows the columns of the table, and the given one is the first that is not among
them. -/
def Schema.Lacks (schema : Schema) (table : String) (columns : List String) (column : String)
    (known : List String) : Prop :=
  schema.columns table = .ok known ∧ ∃ before after, columns = before ++ column :: after ∧
    (∀ other ∈ before, ∃ listed ∈ known, Identifier.Same listed other) ∧
    ¬∃ listed ∈ known, Identifier.Same listed column

/-- The table on the left of a join, if a table is at the root there. -/
def PlacedJoin.leftTable (placed : PlacedJoin) : Option String := placed.left.table

/-- The table that a join adds, if it adds one. -/
def PlacedJoin.targetTable (placed : PlacedJoin) : Option String :=
  (Clauses.anchor placed.relation.target).table

/-- The mapping of a join has a column that its table lacks: the first of the left columns, or the
first of the target's when the left ones are all there. -/
def PlacedJoin.Lacks (placed : PlacedJoin) (schema : Schema) (table column : String)
    (known : List String) : Prop :=
  (placed.leftTable = some table ∧
    schema.Lacks table (placed.relation.mapping.map (·.1)) column known) ∨
  (∀ left, placed.leftTable = some left →
    schema.HasAll left (placed.relation.mapping.map (·.1))) ∧
  placed.targetTable = some table ∧
    schema.Lacks table (placed.relation.mapping.map (·.2)) column known

section Columns

variable {schema : Schema} {table : Option String} {columns known : List String}

/-- A column is listed if one of the known columns has the same name, by the rules of identifiers.
-/
theorem Schema.listsColumn_iff {column : String} :
    Schema.listsColumn known column = true ↔ ∃ listed ∈ known, Identifier.Same listed column := by
  simp [Schema.listsColumn]

/-- Columns pass when no table is named, or when the table has them all. -/
theorem Clauses.checkColumns_ok : Clauses.checkColumns schema table columns = .ok () ↔
    ∀ name, table = some name → schema.HasAll name columns := by
  cases table with
  | none => exact iff_of_true rfl fun _ h => by cases h
  | some name =>
      rw [Clauses.checkColumns, bind_eq_ok]
      simp only [Option.some.injEq, forall_eq', Schema.HasAll]
      refine exists_congr fun known => and_congr_right fun _ => ?_
      cases hfind : columns.find? (!Schema.listsColumn known ·) with
      | none =>
          refine iff_of_true rfl fun column hcolumn => Schema.listsColumn_iff.mp ?_
          simpa using List.find?_eq_none.mp hfind column hcolumn
      | some column =>
          refine iff_of_false (fun h => by cases h) fun hall => ?_
          have hlisted := Schema.listsColumn_iff.mpr (hall column (List.mem_of_find?_eq_some hfind))
          simpa [hlisted] using List.find?_some hfind

/-- The first column that is not listed. -/
theorem find?_unlisted {column : String} :
    columns.find? (!Schema.listsColumn known ·) = some column ↔
      ∃ before after, columns = before ++ column :: after ∧
        (∀ other ∈ before, ∃ listed ∈ known, Identifier.Same listed other) ∧
        ¬∃ listed ∈ known, Identifier.Same listed column := by
  rw [List.find?_eq_some_iff_append]
  simp only [← Schema.listsColumn_iff, Bool.not_eq_true, Bool.not_eq_eq_eq_not, Bool.not_true,
    Bool.not_not]
  constructor
  · rintro ⟨hcolumn, before, after, hcolumns, hbefore⟩
    exact ⟨before, after, hcolumns, hbefore, hcolumn⟩
  · rintro ⟨before, after, hcolumns, hbefore, hcolumn⟩
    exact ⟨hcolumn, before, after, hcolumns, hbefore⟩

/-- A column is missing just when it is the first that the named table lacks. -/
theorem Clauses.checkColumns_missing {named : Option String} {column : String} :
    Clauses.checkColumns schema table columns = .error (.missingColumn named column known) ↔
      ∃ name, named = some name ∧ table = some name ∧
        schema.Lacks name columns column known := by
  cases table with
  | none => simp [Clauses.checkColumns]
  | some name =>
      rw [Clauses.checkColumns]
      cases hlisted : schema.columns name with
      | error e =>
          -- A table that the schema does not know is another error.
          refine iff_of_false (fun h => ?_) ?_
          · rw [Schema.columns] at hlisted
            split at hlisted
            · cases hlisted
            · cases hlisted
              cases h
          · rintro ⟨_, _, htable, hknown, _⟩
            cases htable
            rw [hlisted] at hknown
            cases hknown
      | ok listed =>
          rw [ok_bind]
          cases hfind : columns.find? (!Schema.listsColumn listed ·) with
          | none =>
              refine iff_of_false (fun h => by cases h) ?_
              rintro ⟨_, _, htable, hknown, hmissing⟩
              cases htable
              rw [hlisted] at hknown
              cases hknown
              rw [← find?_unlisted, hfind] at hmissing
              cases hmissing
          | some missing =>
              constructor
              · intro h
                cases h
                exact ⟨name, rfl, rfl, hlisted, find?_unlisted.mp hfind⟩
              · rintro ⟨_, rfl, htable, hknown, hmissing⟩
                cases htable
                rw [hlisted] at hknown
                cases hknown
                rw [← find?_unlisted, hfind] at hmissing
                cases hmissing
                rfl

end Columns

section Joins

variable {schema : Schema} {placed : PlacedJoin}

/-- A join is checked in three steps: its place, the left columns of its mapping, the target's
columns. -/
theorem Demand.check_join : (Demand.join placed).check schema = (do
    Clauses.checkRequired (decide (.left ∈ placed.above)) placed.kind placed.relation.name
    Clauses.checkColumns schema placed.leftTable (placed.relation.mapping.map (·.1))
    Clauses.checkColumns schema placed.targetTable (placed.relation.mapping.map (·.2))) := rfl

/-- A join that can be written has its columns on both sides. -/
theorem Demand.check_join_ok (h : (Demand.join placed).check schema = .ok ()) :
    (∀ left, placed.leftTable = some left →
      schema.HasAll left (placed.relation.mapping.map (·.1))) ∧
    ∀ target, placed.targetTable = some target →
      schema.HasAll target (placed.relation.mapping.map (·.2)) := by
  obtain ⟨_, _, hmapping⟩ := bind_eq_ok.mp h
  obtain ⟨_, hleft, hright⟩ := bind_eq_ok.mp hmapping
  exact ⟨Clauses.checkColumns_ok.mp hleft, Clauses.checkColumns_ok.mp hright⟩

/-- A demand fails for a missing column just when it is a join in a right place whose mapping has
that column. -/
theorem Demand.check_missing_iff {d : Demand} {named : Option String} {column : String}
    {known : List String} : d.check schema = .error (.missingColumn named column known) ↔
      ∃ placed table, d = .join placed ∧ named = some table ∧ ¬placed.Misplaced ∧
        placed.Lacks schema table column known := by
  constructor
  · intro h
    cases Demand.unmet_of_check h with
    | @column placed hplaced _ _ _ hmapping =>
        refine ⟨placed, ?_⟩
        -- The left columns are checked before those of the target.
        obtain hleft | ⟨_, hleft, hright⟩ := bind_eq_error.mp hmapping
        · obtain ⟨table, rfl, htable, hlacks⟩ := Clauses.checkColumns_missing.mp hleft
          exact ⟨table, rfl, rfl, hplaced, Or.inl ⟨htable, hlacks⟩⟩
        · obtain ⟨table, rfl, htable, hlacks⟩ := Clauses.checkColumns_missing.mp hright
          exact ⟨table, rfl, rfl, hplaced,
            Or.inr ⟨Clauses.checkColumns_ok.mp hleft, htable, hlacks⟩⟩
  · rintro ⟨placed, table, rfl, rfl, hplaced, hlacks⟩
    have hrequired : Clauses.checkRequired (decide (.left ∈ placed.above)) placed.kind
        placed.relation.name = .ok () := by
      refine if_neg fun h => hplaced ⟨h.2, of_decide_eq_true h.1⟩
    rw [Demand.check_join, hrequired, ok_bind]
    obtain ⟨htable, hlacks⟩ | ⟨hleft, htable, hlacks⟩ := hlacks
    · rw [Clauses.checkColumns_missing.mpr ⟨table, rfl, htable, hlacks⟩]
      rfl
    · rw [Clauses.checkColumns_ok.mpr hleft, ok_bind]
      exact Clauses.checkColumns_missing.mpr ⟨table, rfl, htable, hlacks⟩

end Joins

/-- **Mappings are checked wherever a join is rendered.** What compiles has every mapping column, on
the left and on the target's side, in the table there, for all joins of all its FROM trees. A
missing column is the error exactly when all that is demanded before its join is met and the join is
in its place; the error names the table, the first missing column, and the table's columns. -/
theorem Query.mappings_checked (schema : Schema) (q : Query) :
    (∀ sql, q.compile schema = .ok sql →
      (q.allDemands schema).filterMap Demand.join? = q.joinsWithin ∧
      ∀ placed ∈ q.joinsWithin,
        (∀ left, placed.leftTable = some left →
          schema.HasAll left (placed.relation.mapping.map (·.1))) ∧
        ∀ target, placed.targetTable = some target →
          schema.HasAll target (placed.relation.mapping.map (·.2))) ∧
    ∀ named column known, q.compile schema = .error (.missingColumn named column known) ↔
      ∃ before placed after table, q.allDemands schema = before ++ .join placed :: after ∧
        (∀ d ∈ before, d.check schema = .ok ()) ∧ ¬placed.Misplaced ∧
        placed.Lacks schema table column known ∧ named = some table := by
  refine ⟨fun sql h => ?_, fun named column known => ?_⟩
  · -- What compiles has met all demands, so the joins are all demanded.
    have hjoins := Query.joins_of_compile h
    refine ⟨hjoins, fun placed hplaced => ?_⟩
    rw [← hjoins, List.mem_filterMap] at hplaced
    obtain ⟨d, hd, hplaced⟩ := hplaced
    cases d with
    | join other =>
        cases hplaced
        exact Demand.check_join_ok (Query.check_of_compile h _ hd)
    | naming _ _ | reference _ _ _ => cases hplaced
  · rw [Query.compile_error_iff fun other h => by cases h]
    constructor
    · rintro ⟨before, d, after, hdemands, hbefore, hd⟩
      -- Only a join asks for the columns of a mapping.
      obtain ⟨placed, table, rfl, hnamed, hplaced, hlacks⟩ := Demand.check_missing_iff.mp hd
      exact ⟨before, placed, after, table, hdemands, hbefore, hplaced, hlacks, hnamed⟩
    · rintro ⟨before, placed, after, table, hdemands, hbefore, hplaced, hlacks, hnamed⟩
      exact ⟨before, .join placed, after, hdemands, hbefore,
        Demand.check_missing_iff.mpr ⟨placed, table, rfl, hnamed, hplaced, hlacks⟩⟩

/-- People by their names, and each with all others that the mapping would be about. -/
def crossedPeople (mapping : List (String × String)) : Supply Query := do
  let people ← Query.table "persons"
  let others ← Relation.foreignKey "others" "persons" mapping
  people.attach .cross true [others]

/-- The mapping of a cross join is checked though it is not written, without regard to case; of two
missing columns the left one is the error. -/
theorem crossedPeople_checked :
    (∃ sql, ((crossedPeople [("LEADER_ID", "id")]).run 0).1.compile people = .ok sql ∧
      ∀ placed ∈ ((crossedPeople [("LEADER_ID", "id")]).run 0).1.joinsWithin,
        ∀ left, placed.leftTable = some left →
          people.HasAll left (placed.relation.mapping.map (·.1))) ∧
    ∃ before placed after table,
      ((crossedPeople [("id", "nobody"), ("boss", "id")]).run 0).1.allDemands people =
        before ++ .join placed :: after ∧
      (∀ d ∈ before, d.check people = .ok ()) ∧ ¬placed.Misplaced ∧
      placed.Lacks people table "boss" ["id", "name", "leader_id"] ∧
      some "persons" = some table := by
  obtain ⟨sql, hsql⟩ : ∃ sql,
      ((crossedPeople [("LEADER_ID", "id")]).run 0).1.compile people = .ok sql :=
    exists_ok (by decide +kernel)
  refine ⟨⟨sql, hsql, fun placed hplaced => ?_⟩, ?_⟩
  · exact (((Query.mappings_checked people _).1 sql hsql).2 placed hplaced).1
  · refine ((Query.mappings_checked people _).2 (some "persons") "boss" _).mp ?_
    exact error?_eq_some.mp (by decide +kernel)

end RelationalQuery
