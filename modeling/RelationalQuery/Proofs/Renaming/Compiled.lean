/-
  RelationalQuery.Proofs.Renaming.Compiled — statements do not depend on ids.

  Rendering looks at ids where it looks up names, where it asks whether a star belongs to the whole
  source, and where it calls a condition or a selection. Names do not depend on ids, and neither
  does whether two ids are the same. So a query under other ids is written by the same fragments,
  or fails by the same check.

  Main statements:
    * `Source.occurrences_renamed`: the sources to be named.
    * `Query.render_renamed`: the fragment of a query.
    * `Query.compile_renamed`: the statement with its arguments.
-/

import RelationalQuery.Proofs.Renaming.Names
import RelationalQuery.Select.Rendering

namespace RelationalQuery

variable {ρ : Renaming}

/-! ## Sources -/

namespace Source.Renamed

/-- A source has its id renamed. -/
theorem id {s s' : Source} (h : s.Renamed ρ s') : ρ.renames s.id s'.id := by
  cases h <;> assumption

/-- The root of the FROM tree is the same. -/
theorem root : {s s' : Source} → s.Renamed ρ s' → s.root.Renamed ρ s'.root
  | .table .., _, .table h name label => .table h name label
  | .subquery .., _, .subquery h hq label => .subquery h hq label
  | .joinTree .., _, .joinTree _ hleft _ => hleft.root

theorem name? : {s s' : Source} → s.Renamed ρ s' → s.name? = s'.name?
  | .table .., _, .table .. => rfl
  | .subquery .., _, .subquery .. => rfl
  | .joinTree .., _, .joinTree _ hleft _ => hleft.name?

theorem alias? : {s s' : Source} → s.Renamed ρ s' → s.alias? = s'.alias?
  | .table .., _, .table .. => rfl
  | .subquery .., _, .subquery .. => rfl
  | .joinTree .., _, .joinTree _ hleft _ => hleft.alias?

theorem joins {s s' : Source} (h : s.Renamed ρ s') :
    List.Forall₂ (Join.Renamed ρ) s.joins s'.joins := by
  cases h with
  | table => exact .nil
  | subquery => exact .nil
  | joinTree _ _ hjoins => exact hjoins

/-- A leaf is the same occurrence under its other id. -/
theorem occurrence {s s' : Source} (h : s.Renamed ρ s') :
    s.occurrence.Renamed ρ s'.occurrence :=
  ⟨h.id, h.name?, by rw [Source.occurrence, Source.occurrence, isExplicit, isExplicit, h.alias?]⟩

end Source.Renamed

mutual

/-- The occurrences of a FROM tree are the same: by induction over the source, with the queries
inside it. -/
theorem Source.occurrences_renamed : (s : Source) → ∀ {s'}, s.Renamed ρ s' →
    List.Forall₂ (Occurrence.Renamed ρ) s.occurrences s'.occurrences
  | .table .., _, .table h name label => .cons (Source.Renamed.table h name label).occurrence .nil
  | .subquery _ query _, _, .subquery h hq label =>
      .cons (Source.Renamed.subquery h hq label).occurrence (query.occurrences_renamed hq)
  | .joinTree _ left joins, _, .joinTree _ hleft hjoins =>
      List.rel_append (left.occurrences_renamed hleft) (Join.occurrences_renamed joins hjoins)

/-- So are those of joins. -/
theorem Join.occurrences_renamed : (joins : List Join) → ∀ {joins'},
    List.Forall₂ (Join.Renamed ρ) joins joins' →
      List.Forall₂ (Occurrence.Renamed ρ) (Join.occurrences joins) (Join.occurrences joins')
  | [], _, .nil => .nil
  | ⟨_, _, ⟨_, target, _, _, _, joins⟩⟩ :: rest, _,
    .cons (.mk _ _ (.mk _ htarget _ _ _ hjoins)) hrest =>
      List.rel_append (List.rel_append (target.occurrences_renamed htarget)
        (Join.occurrences_renamed joins hjoins)) (Join.occurrences_renamed rest hrest)

/-- So are those of a query. -/
theorem Query.occurrences_renamed : (q : Query) → ∀ {q'}, q.Renamed ρ q' →
    List.Forall₂ (Occurrence.Renamed ρ) q.occurrences q'.occurrences
  | ⟨_, _, none, _, _, _, _, _, _⟩, _, .mk _ _ .none _ _ _ _ _ _ => .nil
  | ⟨_, _, some source, _, _, _, _, _, _⟩, _, .mk _ _ (.some hsource) _ _ _ _ _ _ =>
      source.occurrences_renamed hsource

end

/-! ## Select lists -/

mutual

/-- The columns that joins add are the same, with those of the joins below them. -/
theorem Join.emittedAll_renamed : (joins : List Join) → ∀ {joins'},
    List.Forall₂ (Join.Renamed ρ) joins joins' →
      List.Forall₂ (ResultColumn.Renamed ρ) (Join.emittedAll joins) (Join.emittedAll joins')
  | [], _, .nil => .nil
  | ⟨included, _, relation⟩ :: rest, _, .cons (.mk _ _ hrelation) hrest =>
      List.rel_append (relation.emitted_renamed included hrelation)
        (Join.emittedAll_renamed rest hrest)

/-- So are the columns that one relation adds. -/
theorem Relation.emitted_renamed (included : Bool) : (r : Relation) → ∀ {r'}, r.Renamed ρ r' →
    List.Forall₂ (ResultColumn.Renamed ρ) (r.emitted included) (r'.emitted included)
  | ⟨_, target, _, _, selection, joins⟩, _, .mk _ htarget _ _ hselection hjoins => by
      refine List.rel_append ?_ (Join.emittedAll_renamed joins hjoins)
      cases included with
      | false => exact .nil
      | true => exact hselection _ _ htarget.id

end

/-- So are those of all relations on a source. -/
theorem Source.relationColumns_renamed {s s' : Source} (h : s.Renamed ρ s') :
    List.Forall₂ (ResultColumn.Renamed ρ) s.relationColumns s'.relationColumns :=
  Join.emittedAll_renamed _ h.joins

/-! ## Clauses -/

/-- Whether an expression is a NULL constant does not depend on ids. -/
theorem Expr.isNullValue_renamed {e e' : Expr} (h : e.Renamed ρ e') :
    e.isNullValue = e'.isNullValue := by
  cases h <;> rfl

namespace Clauses

/-- A comparison is written alike. -/
theorem comparison_renamed (mark : Fragment) (negated : Bool) {a a' b b' : Expr}
    (ha : a.Renamed ρ a') (hb : b.Renamed ρ b') (left right : Rendering) :
    comparison mark negated a b left right = comparison mark negated a' b' left right := by
  rw [comparison, comparison, Expr.isNullValue_renamed ha, Expr.isNullValue_renamed hb]

/-- The anchor of the joins on a source is renamed as its root is. -/
theorem id_anchor {s s' : Source} (h : s.Renamed ρ s') :
    ρ.renames (anchor s).id (anchor s').id := h.root.id

theorem table_anchor {s s' : Source} (h : s.Renamed ρ s') :
    (anchor s).table = (anchor s').table := by
  unfold anchor
  have hroot := h.root
  generalize s.root = root, s'.root = root' at hroot
  cases hroot <;> rfl

/-- Whether a select list is read as a whole does not depend on ids. -/
theorem readsWhole_renamed {selection selection' : List ResultColumn}
    (hselection : List.Forall₂ (ResultColumn.Renamed ρ) selection selection')
    {source source' : Option Source} (hsource : Option.Rel (Source.Renamed ρ) source source') :
    readsWhole selection source = readsWhole selection' source' := by
  cases hsource with
  | none =>
      cases hselection with
      | nil => rfl
      | cons hfirst hrest => cases hfirst <;> cases hrest <;> rfl
  | some hsource =>
      cases hselection with
      | nil => rfl
      | cons hfirst hrest =>
          cases hfirst with
          | star h =>
              cases hrest with
              | nil =>
                  -- A lone star reads the whole source, unless relations select columns.
                  have hcolumns := isEmpty_eq_of_forall₂ (Source.relationColumns_renamed hsource)
                  simp only [readsWhole, hcolumns, Renaming.eq_iff h hsource.id]
              | cons => rfl
          | expr => rfl
          | aliased => rfl

section Scope

variable {s s' : Scope} (hs : s.Renamed ρ s')
include hs

/-- A column is written alike, under the name that its source has. -/
theorem columnOf_renamed {id id' : SourceId} (h : ρ.renames id id') (name : String) :
    columnOf s id name = columnOf s' id' name := by
  rw [columnOf, columnOf, hs.name_renamed h]

/-- So is a star. -/
theorem starOf_renamed {id id' : SourceId} (h : ρ.renames id id') :
    starOf s id = starOf s' id' := by
  rw [starOf, starOf, hs.name_renamed h]

/-- So are the equalities of a mapping. -/
theorem mappingTerms_renamed {left left' right right' : SourceId} (hleft : ρ.renames left left')
    (hright : ρ.renames right right') : (mapping : List (String × String)) →
      mappingTerms s left right mapping = mappingTerms s' left' right' mapping
  | [] => rfl
  | (leftColumn, rightColumn) :: rest => by
      rw [mappingTerms, mappingTerms, columnOf_renamed hs hright, columnOf_renamed hs hleft,
        mappingTerms_renamed hleft hright rest]

/-- So are the row ids that a reversed ordering falls back on. -/
theorem reverseRowIds_renamed {source source' : Option Source}
    (hsource : Option.Rel (Source.Renamed ρ) source source') :
    reverseRowIds s source = reverseRowIds s' source' := by
  cases hsource with
  | none => rfl
  | @some source source' hsource =>
      have hroot := hsource.root
      unfold reverseRowIds
      rw [Option.map_some, Option.map_some]
      generalize source.root = root, source'.root = root' at hroot
      -- Only a table at the root has row ids, and it goes by the same name.
      cases hroot with
      | table h => simp only [hs.name?_renamed h]
      | subquery => rfl
      | joinTree => rfl

/-- So is an ORDER BY clause. -/
theorem orderClause_renamed {source source' : Option Source}
    (hsource : Option.Rel (Source.Renamed ρ) source source') (reversed : Bool)
    (terms : List Fragment) :
    orderClause s source reversed terms = orderClause s' source' reversed terms := by
  rw [orderClause, orderClause, reverseRowIds_renamed hs hsource]

end Scope

end Clauses

/-! ## Rendering -/

mutual

/-- **The same expression under other ids is rendered alike**: by induction over it, where a
subquery puts the same names in front of both scopes. -/
theorem Expr.render_renamed : (e : Expr) → ∀ {e' : Expr} {s s' : Scope}, e.Renamed ρ e' →
    s.Renamed ρ s' → ∀ negated, e.render s negated = e'.render s' negated
  | .literal .., _, _, _, .literal .., _, _ => rfl
  | .value _, _, _, _, .value _, _, _ => rfl
  | .column none _, _, _, _, .bareColumn _, _, _ => rfl
  | .column (some _) name, _, _, _, .column h _, hs, negated => by
      -- Only here an id is rendered: as the name that the scope has for it.
      rw [Expr.render, Expr.render, Clauses.columnOf_renamed hs h]
  | .collate e _, _, _, _, .collate h _, hs, negated => by
      rw [Expr.render, Expr.render, e.render_renamed h hs]
  | .not e, _, _, _, .not h, hs, negated => by
      rw [Expr.render, Expr.render, e.render_renamed h hs]
  | .equal a b, _, _, _, .equal ha hb, hs, negated
  | .notEqual a b, _, _, _, .notEqual ha hb, hs, negated
  | .is a b, _, _, _, .is ha hb, hs, negated
  | .isNot a b, _, _, _, .isNot ha hb, hs, negated => by
      rw [Expr.render, Expr.render, a.render_renamed ha hs, b.render_renamed hb hs]
      exact Clauses.comparison_renamed _ _ ha hb _ _
  | .prefixOp _ e, _, _, _, .prefixOp _ h, hs, negated => by
      rw [Expr.render, Expr.render, e.render_renamed h hs]
  | .infixOp _ a b, _, _, _, .infixOp _ ha hb, hs, negated => by
      rw [Expr.render, Expr.render, a.render_renamed ha hs, b.render_renamed hb hs]
  | .and es, _, _, _, .and h, hs, negated
  | .or es, _, _, _, .or h, hs, negated => by
      rw [Expr.render, Expr.render, Expr.renderAll_renamed es h hs]
  | .inList e es, _, _, _, .inList h hes, hs, negated => by
      rw [Expr.render, Expr.render, e.render_renamed h hs, Expr.renderAll_renamed es hes hs,
        isEmpty_eq_of_forall₂ hes]
  | .inQuery e q, _, _, _, .inQuery h hq, hs, negated => by
      rw [Expr.render, Expr.render, e.render_renamed h hs]
      exact congrArg (_ >>= ·) (funext fun operand =>
        (hs.enter_renamed (q.occurrences_renamed hq)).bind_eq fun _ _ hinner => by
          rw [q.render_renamed hq hinner])
  | .exists q, _, _, _, .exists hq, hs, negated => by
      rw [Expr.render, Expr.render]
      exact (hs.enter_renamed (q.occurrences_renamed hq)).bind_eq fun _ _ hinner => by
        rw [q.render_renamed hq hinner]
  | .between a b c, _, _, _, .between ha hb hc, hs, negated => by
      rw [Expr.render, Expr.render, a.render_renamed ha hs, b.render_renamed hb hs,
        c.render_renamed hc hs]
  | .call _ es, _, _, _, .call _ h, hs, negated => by
      rw [Expr.render, Expr.render, Expr.renderAll_renamed es h hs]
  | .count c, _, _, _, .count h, hs, negated => by
      rw [Expr.render, Expr.render, c.renderCounted_renamed h hs]
  | .countDistinct e, _, _, _, .countDistinct h, hs, negated => by
      rw [Expr.render, Expr.render, e.render_renamed h hs]
termination_by structural e => e

/-- So are expressions in a list. -/
theorem Expr.renderAll_renamed : (es : List Expr) → ∀ {es' : List Expr} {s s' : Scope},
    List.Forall₂ (Expr.Renamed ρ) es es' → s.Renamed ρ s' →
      Expr.renderAll s es = Expr.renderAll s' es'
  | [], _, _, _, .nil, _ => rfl
  | e :: rest, _, _, _, .cons h hrest, hs => by
      rw [Expr.renderAll, Expr.renderAll, e.render_renamed h hs,
        Expr.renderAll_renamed rest hrest hs]
termination_by structural es => es

/-- So is the condition of a clause. -/
theorem Expr.renderClause_renamed : (e : Option Expr) → ∀ {e' : Option Expr} {s s' : Scope},
    Option.Rel (Expr.Renamed ρ) e e' → s.Renamed ρ s' → ∀ keyword,
      Expr.renderClause s keyword e = Expr.renderClause s' keyword e'
  | none, _, _, _, .none, _, _ => rfl
  | some e, _, _, _, .some h, hs, keyword => by
      rw [Expr.renderClause, Expr.renderClause, e.render_renamed h hs]
termination_by structural e => e

/-- So is a counted column. -/
theorem ResultColumn.renderCounted_renamed : (c : ResultColumn) → ∀ {c' : ResultColumn}
    {s s' : Scope}, c.Renamed ρ c' → s.Renamed ρ s' → c.renderCounted s = c'.renderCounted s'
  | .star _, _, _, _, .star h, hs => by
      rw [ResultColumn.renderCounted, ResultColumn.renderCounted, hs.name_renamed h]
  | .expr e, _, _, _, .expr h, hs => by
      rw [ResultColumn.renderCounted, ResultColumn.renderCounted, e.render_renamed h hs]
  | .aliased e _, _, _, _, .aliased h _, hs => by
      rw [ResultColumn.renderCounted, ResultColumn.renderCounted, e.render_renamed h hs]
termination_by structural c => c

/-- So is a result column. -/
theorem ResultColumn.render_renamed : (c : ResultColumn) → ∀ {c' : ResultColumn}
    {s s' : Scope}, c.Renamed ρ c' → s.Renamed ρ s' → c.render s = c'.render s'
  | .star _, _, _, _, .star h, hs => by
      rw [ResultColumn.render, ResultColumn.render, Clauses.starOf_renamed hs h]
  | .expr e, _, _, _, .expr h, hs => by
      rw [ResultColumn.render, ResultColumn.render, e.render_renamed h hs]
  | .aliased e _, _, _, _, .aliased h _, hs => by
      rw [ResultColumn.render, ResultColumn.render, e.render_renamed h hs]
termination_by structural c => c

/-- So is a select list. -/
theorem ResultColumn.renderAll_renamed : (cs : List ResultColumn) → ∀ {cs' : List ResultColumn}
    {s s' : Scope}, List.Forall₂ (ResultColumn.Renamed ρ) cs cs' → s.Renamed ρ s' →
      ResultColumn.renderAll s cs = ResultColumn.renderAll s' cs'
  | [], _, _, _, .nil, _ => rfl
  | c :: rest, _, _, _, .cons h hrest, hs => by
      rw [ResultColumn.renderAll, ResultColumn.renderAll, c.render_renamed h hs,
        ResultColumn.renderAll_renamed rest hrest hs]
termination_by structural cs => cs

/-- So is an ordering, reversed or not. -/
theorem OrderingTerm.renderAll_renamed : (ts : List OrderingTerm) → ∀ {ts' : List OrderingTerm}
    {s s' : Scope}, List.Forall₂ (OrderingTerm.Renamed ρ) ts ts' → s.Renamed ρ s' →
      ∀ reversed, OrderingTerm.renderAll s reversed ts = OrderingTerm.renderAll s' reversed ts'
  | [], _, _, _, .nil, _, _ => rfl
  | ⟨e, _⟩ :: rest, _, _, _, .cons (.mk h _) hrest, hs, reversed => by
      rw [OrderingTerm.renderAll, OrderingTerm.renderAll, e.render_renamed h hs,
        OrderingTerm.renderAll_renamed rest hrest hs]
      rfl
termination_by structural ts => ts

/-- So is a statement, whose leaves get the same names. -/
theorem Query.render_renamed : (q : Query) → ∀ {q' : Query} {s s' : Scope}, q.Renamed ρ q' →
    s.Renamed ρ s' → q.render s = q'.render s'
  | ⟨selection, _, source, filter, groupBy, having, orderings, reversed, _⟩, _, s, s',
    .mk hselection _ hsource hfilter hgroupBy hhaving horderings _ _, hs => by
      rw [Query.render, Query.render, Clauses.readsWhole_renamed hselection hsource,
        ResultColumn.renderAll_renamed selection hselection hs,
        Source.renderColumns_renamed source hsource hs,
        Source.renderClause_renamed source hsource hs, Expr.renderClause_renamed filter hfilter hs,
        Expr.renderAll_renamed groupBy hgroupBy hs, Expr.renderClause_renamed having hhaving hs,
        OrderingTerm.renderAll_renamed orderings horderings hs]
      simp only [Clauses.orderClause_renamed hs hsource]
termination_by structural q => q

/-- So are the columns that the joins of a FROM clause add. -/
theorem Source.renderColumns_renamed : (source : Option Source) → ∀ {source' : Option Source}
    {s s' : Scope}, Option.Rel (Source.Renamed ρ) source source' → s.Renamed ρ s' →
      Source.renderColumns s source = Source.renderColumns s' source'
  | none, _, _, _, .none, _ => rfl
  | some (.table ..), _, _, _, .some (.table ..), _ => rfl
  | some (.subquery ..), _, _, _, .some (.subquery ..), _ => rfl
  | some (.joinTree _ _ joins), _, _, _, .some (.joinTree _ _ hjoins), hs =>
      Join.renderColumns_renamed joins hjoins hs
termination_by structural source => source

/-- So is a FROM clause. -/
theorem Source.renderClause_renamed : (source : Option Source) → ∀ {source' : Option Source}
    {s s' : Scope}, Option.Rel (Source.Renamed ρ) source source' → s.Renamed ρ s' →
      Source.renderClause s source = Source.renderClause s' source'
  | none, _, _, _, .none, _ => rfl
  | some source, _, _, _, .some hsource, hs => by
      rw [Source.renderClause, Source.renderClause, source.render_renamed hsource hs]
termination_by structural source => source

/-- So are the columns of joins, and of the joins below them. -/
theorem Join.renderColumns_renamed : (joins : List Join) → ∀ {joins' : List Join} {s s' : Scope},
    List.Forall₂ (Join.Renamed ρ) joins joins' → s.Renamed ρ s' →
      Join.renderColumns s joins = Join.renderColumns s' joins'
  | [], _, _, _, .nil, _ => rfl
  | ⟨included, _, ⟨_, target, _, _, selection, joins⟩⟩ :: rest, _, _, _,
    .cons (.mk _ _ (.mk _ htarget _ _ hselection hjoins)) hrest, hs => by
      rw [Join.renderColumns, Join.renderColumns,
        ResultColumn.renderAll_renamed (selection target.id) (hselection _ _ htarget.id) hs,
        Join.renderColumns_renamed joins hjoins hs, Join.renderColumns_renamed rest hrest hs]
termination_by structural joins => joins

/-- So is a source, with the query inside it and the joins on it. -/
theorem Source.render_renamed : (source : Source) → ∀ {source' : Source} {s s' : Scope},
    source.Renamed ρ source' → s.Renamed ρ s' → source.render s = source'.render s'
  | .table .., _, _, _, .table h _ _, hs => by
      rw [Source.render, Source.render, hs.name?_renamed h]
  | .subquery _ q _, _, _, _, .subquery h hq _, hs => by
      rw [Source.render, Source.render, hs.name?_renamed h, q.render_renamed hq hs]
  | .joinTree _ left joins, _, _, _, .joinTree _ hleft hjoins, hs => by
      rw [Source.render, Source.render, left.render_renamed hleft hs,
        Join.renderAll_renamed joins hjoins hs (Clauses.id_anchor hleft)
          (Clauses.table_anchor hleft)]
termination_by structural source => source

/-- So are joins, with the joins below them: each condition is given sources that are the same. -/
theorem Join.renderAll_renamed : (joins : List Join) → ∀ {joins' : List Join} {s s' : Scope},
    List.Forall₂ (Join.Renamed ρ) joins joins' → s.Renamed ρ s' →
      ∀ {left left' : Clauses.Anchor}, ρ.renames left.id left'.id → left.table = left'.table →
        ∀ afterOptional, Join.renderAll s left afterOptional joins =
          Join.renderAll s' left' afterOptional joins'
  | [], _, _, _, .nil, _, _, _, _, _, _ => rfl
  | ⟨_, kind, ⟨name, target, mapping, condition, _, joins⟩⟩ :: rest, _, s, s',
    .cons (.mk _ _ (.mk _ htarget _ hcondition _ hjoins)) hrest, hs, left, left', hleft, htable,
    afterOptional => by
      -- Tables and columns are checked without ids; names are looked up under ids that correspond.
      rw [Join.renderAll, Join.renderAll, hs.schema, Clauses.checkMapping, Clauses.checkMapping,
        htable, Clauses.table_anchor htarget, target.render_renamed htarget hs,
        Clauses.mappingTerms_renamed hs hleft htarget.id,
        Expr.renderAll_renamed (condition left.id target.id) (hcondition _ _ _ _ hleft htarget.id)
          hs,
        Join.renderAll_renamed joins hjoins hs (Clauses.id_anchor htarget)
          (Clauses.table_anchor htarget),
        Join.renderAll_renamed rest hrest hs hleft htable]
termination_by structural joins => joins

end

/-- **A query under other ids has the same statement**, with the same arguments, or fails alike. -/
theorem Query.compile_renamed {q q' : Query} (h : q.Renamed ρ q') (schema : Schema) :
    q.compile schema = q'.compile schema := by
  have hfragment : q.fragment schema = q'.fragment schema :=
    ((Scope.outermost_renamed schema).enter_renamed (q.occurrences_renamed h)).bind_eq
      fun _ _ hscope => q.render_renamed h hscope
  rw [compile, compile, hfragment]

end RelationalQuery
