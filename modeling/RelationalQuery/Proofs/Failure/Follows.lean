/-
  RelationalQuery.Proofs.Failure.Follows — rendering fails as the first demand that is not met.

  The demands of a query are a flat list, and checking them in order is a plain loop. Rendering is a
  walk over a tree with a scope. The two agree, step by step: whatever is rendered succeeds if its
  demands are met, and otherwise fails with the error of the first one that is not.

  Main definitions:
    * `Follows`: an attempt that goes the way of its demands.
    * `Sees`: a scope has names for what the FROM clauses around know.

  Main statement:
    * `Query.render_follows`: a statement follows its demands.
-/

import RelationalQuery.Proofs.Failure.Demands
import RelationalQuery.Proofs.Naming.Choice
import RelationalQuery.Proofs.Statement.Scoping

namespace RelationalQuery

/-! ## Failing as the first demand that is not met -/

/-- An attempt that succeeds if the demands are met, and otherwise fails as the first that is
not. -/
def Follows {α : Type} (schema : Schema) (x : Except QueryError α) (ds : List Demand) : Prop :=
  (fun _ => ()) <$> x = forM ds (Demand.check schema)

section Follows

variable {α β : Type} {schema : Schema} {x : Except QueryError α} {ds es : List Demand}

/-- An attempt that succeeds follows no demands at all. -/
theorem Follows.ok (a : α) : Follows schema (.ok a) [] := rfl

/-- Attempts in a row have their demands in a row: a demand of the second counts only when those of
the first are met. -/
theorem Follows.bind {k : α → Except QueryError β} (hx : Follows schema x ds)
    (hk : ∀ a, x = .ok a → Follows schema (k a) es) : Follows schema (x >>= k) (ds ++ es) := by
  unfold Follows at hx ⊢
  rw [List.forM_append, ← hx]
  cases x with
  | error e => rfl
  | ok a => exact hk a rfl

/-- A step that makes one demand, followed by others. -/
theorem Follows.cons {d : Demand} {k : α → Except QueryError β} (hx : Follows schema x [d])
    (hk : ∀ a, x = .ok a → Follows schema (k a) es) : Follows schema (x >>= k) (d :: es) :=
  hx.bind hk

/-- What is done with a result demands nothing more. -/
theorem Follows.map (f : α → β) (hx : Follows schema x ds) : Follows schema (f <$> x) ds := by
  unfold Follows at hx ⊢
  rw [← hx]
  cases x <;> rfl

/-- The last of several steps. -/
theorem Follows.last {f : α → β} (hx : Follows schema x ds) :
    Follows schema (x >>= fun a => pure (f a)) ds := by
  rw [bind_pure_comp]
  exact hx.map f

/-- A step that is a demand. -/
theorem Follows.of_check {d : Demand} (h : (fun _ => ()) <$> x = d.check schema) :
    Follows schema x [d] := by
  unfold Follows
  rw [List.forM_cons, List.forM_nil, h]
  cases d.check schema <;> rfl

end Follows

/-! ## Scopes -/

/-- The scope has a name for a source just when the FROM clauses around know it. -/
def Sees (scope : Scope) (chain : List Frame) : Prop :=
  ∀ id, (scope.find? id).isSome ↔ InScope chain id ∨ NamedTogether chain id

/-- So it does inside every FROM tree whose leaves are among those named together. -/
def SeesAmong (scope : Scope) (together : List SourceId) (outer : List Frame) : Prop :=
  ∀ leaves, leaves ⊆ together → Sees scope (⟨leaves, together⟩ :: outer)

/-- Outside every statement no source has a name. -/
theorem sees_outermost (schema : Schema) : Sees (.outermost schema) [] := by
  intro id
  simp [Scope.outermost, Scope.find?, InScope, NamedTogether]

/-- A statement's scope has names for its own leaves besides. -/
theorem Sees.enter {scope inner : Scope} {chain : List Frame} (hsees : Sees scope chain)
    {os : List Occurrence} (h : scope.enter os = .ok inner) :
    SeesAmong inner (os.map (·.id)) chain ∧ inner.schema = scope.schema := by
  unfold Scope.enter at h
  obtain ⟨naming, hnaming, h⟩ := bind_eq_ok.mp h
  cases pure_eq_ok.mp h
  refine ⟨?_, rfl⟩
  intro leaves hleaves id
  have hown : (naming.lookup id).isSome ↔ id ∈ os.map (·.id) := Naming.mem_ids_of_lookup hnaming
  have hrest := hsees id
  rw [inScope_cons, namedTogether_cons, Scope.find?, List.findSome?_cons]
  cases hlookup : naming.lookup id with
  | some name =>
      -- The id is one of those named together.
      rw [hlookup] at hown
      have hmem : id ∈ os.map (·.id) := hown.mp rfl
      exact iff_of_true rfl (.inr (.inl hmem))
  | none =>
      have hnot : id ∉ os.map (·.id) := by
        intro hmem
        have := hown.mpr hmem
        rw [hlookup] at this
        cases this
      have hleaf : id ∉ leaves := fun hmem => hnot (hleaves hmem)
      show ((scope.find? id).isSome ↔ _)
      rw [hrest]
      simp only [hnot, hleaf, false_or]

section Steps

variable {α : Type} {schema : Schema} {scope : Scope} {chain : List Frame}

/-- The name of a column demands that its source is known. -/
theorem Scope.name_follows (hsees : Sees scope chain) (source : SourceId) (column : String) :
    Follows schema (scope.name source column) [.reference chain source column] := by
  apply Follows.of_check
  have hknown := hsees source
  rw [Demand.check, Scope.name]
  cases hfind : scope.find? source with
  | none =>
      rw [hfind] at hknown
      rw [if_neg fun h => by cases hknown.mpr h]
      rfl
  | some name =>
      rw [hfind] at hknown
      rw [if_pos (hknown.mp rfl)]
      rfl

/-- A nested statement demands that its names can be chosen, and then what it demands in its own
scope. -/
theorem Follows.inside {os : List Occurrence} {within : Scope → List Demand}
    {k : Scope → Except QueryError α}
    (hk : ∀ inner, scope.enter os = .ok inner → Follows schema (k inner) (within inner)) :
    Follows schema (scope.enter os >>= k) (Demand.inside scope os within) := by
  have henter : Follows schema (scope.enter os) [.naming scope.visible os] := by
    apply Follows.of_check
    rw [Demand.check, Scope.enter]
    cases Naming.resolve scope.visible os <;> rfl
  rw [Demand.inside]
  refine henter.cons ?_
  intro inner hinner
  rw [hinner]
  exact hk inner hinner

/-- A comparison has the demands of its operands, of which a NULL constant leaves one out. -/
theorem Clauses.comparison_follows {mark : Fragment} {negated : Bool} {lhs rhs : Expr}
    {left right : Rendering} {ds es : List Demand} (hleft : Follows schema left ds)
    (hright : Follows schema right es) :
    Follows schema (Clauses.comparison mark negated lhs rhs left right)
      (Demand.ofComparison lhs rhs ds es) := by
  unfold Clauses.comparison Demand.ofComparison
  split
  · exact hleft.map _
  · split
    · exact hright.map _
    · exact hleft.bind fun _ _ => hright.last

/-- A mapping demands that both sides of each pair are known. -/
theorem Clauses.mappingTerms_follows (hsees : Sees scope chain) (left target : SourceId) :
    (mapping : List (String × String)) →
      Follows schema (Clauses.mappingTerms scope left target mapping)
        (Demand.ofMapping chain left target mapping)
  | [] => .ok _
  | (leftColumn, targetColumn) :: rest => by
      have htarget : Follows schema (Clauses.columnOf scope target targetColumn)
          [.reference chain target targetColumn] := (Scope.name_follows hsees ..).last
      have hleft : Follows schema (Clauses.columnOf scope left leftColumn)
          [.reference chain left leftColumn] := (Scope.name_follows hsees ..).last
      rw [Clauses.mappingTerms, Demand.ofMapping]
      refine htarget.cons fun _ _ => ?_
      refine hleft.cons fun _ _ => ?_
      exact (Clauses.mappingTerms_follows hsees left target rest).last

/-- A condition of a join has the demands of its mapping and of its own terms, and a cross join has
none. -/
theorem Clauses.onClause_follows (kind : JoinKind) {mapped own : Except QueryError (List Fragment)}
    {ds es : List Demand} (hmapped : Follows schema mapped ds) (hown : Follows schema own es) :
    Follows schema (Clauses.onClause kind mapped own)
      (if kind = .cross then [] else ds ++ es) := by
  have hboth : ∀ f : List Fragment → List Fragment → Fragment,
      Follows schema (mapped >>= fun a => own >>= fun b => pure (f a b)) (ds ++ es) :=
    fun _ => hmapped.bind fun _ _ => hown.last
  cases kind with
  | cross => exact .ok _
  | inner => exact hboth _
  | left => exact hboth _

end Steps

mutual

/-- The leaves of a FROM tree are among its occurrences. -/
theorem Source.leafIds_subset : (s : Source) → s.leafIds ⊆ s.occurrences.map (·.id)
  | .table id name label => by
      rw [Source.leafIds, Source.occurrences]
      exact List.Subset.refl _
  | .subquery id query label => by
      rw [Source.leafIds, Source.occurrences, List.map_cons]
      exact List.cons_subset_cons _ (List.nil_subset _)
  | .joinTree id left joins => by
      rw [Source.leafIds, Source.occurrences, List.map_append, List.append_subset]
      exact ⟨List.subset_append_of_subset_left _ left.leafIds_subset,
        List.subset_append_of_subset_right _ (Join.leafIds_subset joins)⟩

/-- The leaves below joins are among the occurrences of the joins. -/
theorem Join.leafIds_subset : (joins : List Join) →
    Join.leafIds joins ⊆ (Join.occurrences joins).map (·.id)
  | [] => List.nil_subset _
  | ⟨_, _, ⟨_, target, _, _, _, joins⟩⟩ :: rest => by
      rw [Join.leafIds, Join.occurrences, List.map_append, List.map_append, List.append_subset,
        List.append_subset]
      refine ⟨⟨?_, ?_⟩, List.subset_append_of_subset_right _ (Join.leafIds_subset rest)⟩
      · exact List.subset_append_of_subset_left _
          (List.subset_append_of_subset_left _ target.leafIds_subset)
      · exact List.subset_append_of_subset_left _
          (List.subset_append_of_subset_right _ (Join.leafIds_subset joins))

end

/-- The leaves of a query's FROM tree are among those named together. -/
theorem Query.leafIds_subset (q : Query) : Source.leafIdsOf q.source ⊆ q.namedIds := by
  rw [Source.leafIdsOf, Query.namedIds, Query.occurrences_eq]
  cases q.source with
  | none => exact List.nil_subset _
  | some s => exact s.leafIds_subset

/-! ## Rendering -/

mutual

/-- **Rendering an expression follows its demands**: by induction over it, together with all that
can stand inside it. -/
theorem Expr.render_follows {schema : Schema} {scope : Scope} {chain : List Frame}
    (hschema : scope.schema = schema) (hsees : Sees scope chain) (negated : Bool) : (e : Expr) →
    Follows schema (e.render scope negated) (e.demands scope chain)
  | .literal sql arguments => by
      rw [Expr.render, Expr.demands]
      exact .ok _
  | .value v => by
      rw [Expr.render, Expr.demands]
      exact .ok _
  | .column none name => by
      rw [Expr.render, Expr.demands]
      exact .ok _
  | .column (some source) name => by
      rw [Expr.render, Expr.demands]
      exact (Scope.name_follows hsees source name).last.last
  | .collate e collation => by
      rw [Expr.render, Expr.demands]
      exact (e.render_follows hschema hsees false).last
  | .not e => by
      rw [Expr.render, Expr.demands]
      exact e.render_follows hschema hsees !negated
  | .equal lhs rhs => by
      rw [Expr.render, Expr.demands]
      exact Clauses.comparison_follows (lhs.render_follows hschema hsees false)
        (rhs.render_follows hschema hsees false)
  | .notEqual lhs rhs => by
      rw [Expr.render, Expr.demands]
      exact Clauses.comparison_follows (lhs.render_follows hschema hsees false)
        (rhs.render_follows hschema hsees false)
  | .is lhs rhs => by
      rw [Expr.render, Expr.demands]
      exact Clauses.comparison_follows (lhs.render_follows hschema hsees false)
        (rhs.render_follows hschema hsees false)
  | .isNot lhs rhs => by
      rw [Expr.render, Expr.demands]
      exact Clauses.comparison_follows (lhs.render_follows hschema hsees false)
        (rhs.render_follows hschema hsees false)
  | .prefixOp op e => by
      rw [Expr.render, Expr.demands]
      exact (e.render_follows hschema hsees false).last
  | .infixOp op lhs rhs => by
      rw [Expr.render, Expr.demands]
      exact (lhs.render_follows hschema hsees false).bind fun _ _ =>
        (rhs.render_follows hschema hsees false).last
  | .and terms => by
      rw [Expr.render, Expr.demands]
      exact (Expr.renderAll_follows hschema hsees terms).last
  | .or terms => by
      rw [Expr.render, Expr.demands]
      exact (Expr.renderAll_follows hschema hsees terms).last
  | .inList e items => by
      rw [Expr.render, Expr.demands, Clauses.listMembership]
      split
      · exact .ok _
      · exact (e.render_follows hschema hsees false).bind fun _ _ =>
          (Expr.renderAll_follows hschema hsees items).last
  | .inQuery e query => by
      rw [Expr.render, Expr.demands]
      refine (e.render_follows hschema hsees false).bind fun _ _ => .inside fun inner hinner => ?_
      -- The names of the FROM clause come first, and what is inside is looked up behind them.
      obtain ⟨hinside, hsame⟩ := hsees.enter hinner
      exact (query.render_follows (hsame.trans hschema) (List.Subset.refl _) hinside).last
  | .exists query => by
      rw [Expr.render, Expr.demands]
      refine .inside fun inner hinner => ?_
      obtain ⟨hinside, hsame⟩ := hsees.enter hinner
      exact (query.render_follows (hsame.trans hschema) (List.Subset.refl _) hinside).last
  | .between e low high => by
      rw [Expr.render, Expr.demands]
      exact (e.render_follows hschema hsees false).bind fun _ _ =>
        (low.render_follows hschema hsees false).bind fun _ _ =>
          (high.render_follows hschema hsees false).last
  | .call function arguments => by
      rw [Expr.render, Expr.demands]
      exact (Expr.renderAll_follows hschema hsees arguments).last
  | .count counted => by
      rw [Expr.render, Expr.demands]
      exact (counted.renderCounted_follows hschema hsees).last
  | .countDistinct e => by
      rw [Expr.render, Expr.demands]
      exact (e.render_follows hschema hsees false).last

/-- Rendering a list of expressions follows the demands of each in turn. -/
theorem Expr.renderAll_follows {schema : Schema} {scope : Scope} {chain : List Frame}
    (hschema : scope.schema = schema) (hsees : Sees scope chain) : (es : List Expr) →
    Follows schema (Expr.renderAll scope es) (Expr.demandsAll scope chain es)
  | [] => .ok _
  | e :: rest => by
      rw [Expr.renderAll, Expr.demandsAll]
      exact (e.render_follows hschema hsees false).bind fun _ _ =>
        (Expr.renderAll_follows hschema hsees rest).last

/-- Rendering the condition of a clause follows its demands. -/
theorem Expr.renderClause_follows {schema : Schema} {scope : Scope} {chain : List Frame}
    (hschema : scope.schema = schema) (hsees : Sees scope chain) (keyword : Token) :
    (e : Option Expr) →
      Follows schema (Expr.renderClause scope keyword e) (Expr.demandsOf scope chain e)
  | none => .ok _
  | some condition => by
      rw [Expr.renderClause, Expr.demandsOf, Clauses.behind]
      exact (condition.render_follows hschema hsees false).map _

/-- Rendering a counted column follows its demands. -/
theorem ResultColumn.renderCounted_follows {schema : Schema} {scope : Scope}
    {chain : List Frame} (hschema : scope.schema = schema) (hsees : Sees scope chain) :
    (column : ResultColumn) →
      Follows schema (column.renderCounted scope) (column.demands scope chain)
  | .star source => by
      rw [ResultColumn.renderCounted, ResultColumn.demands]
      exact (Scope.name_follows hsees source "*").last
  | .expr e => by
      rw [ResultColumn.renderCounted, ResultColumn.demands]
      exact e.render_follows hschema hsees false
  | .aliased e label => by
      rw [ResultColumn.renderCounted, ResultColumn.demands]
      exact e.render_follows hschema hsees false

/-- Rendering a result column follows its demands. -/
theorem ResultColumn.render_follows {schema : Schema} {scope : Scope} {chain : List Frame}
    (hschema : scope.schema = schema) (hsees : Sees scope chain) : (column : ResultColumn) →
    Follows schema (column.render scope) (column.demands scope chain)
  | .star source => by
      rw [ResultColumn.render, ResultColumn.demands]
      exact (Scope.name_follows hsees source "*").last
  | .expr e => by
      rw [ResultColumn.render, ResultColumn.demands]
      exact e.render_follows hschema hsees false
  | .aliased e label => by
      rw [ResultColumn.render, ResultColumn.demands]
      exact (e.render_follows hschema hsees false).last

/-- Rendering a select list follows the demands of its columns in turn. -/
theorem ResultColumn.renderAll_follows {schema : Schema} {scope : Scope} {chain : List Frame}
    (hschema : scope.schema = schema) (hsees : Sees scope chain) : (columns : List ResultColumn) →
    Follows schema (ResultColumn.renderAll scope columns)
      (ResultColumn.demandsAll scope chain columns)
  | [] => .ok _
  | column :: rest => by
      rw [ResultColumn.renderAll, ResultColumn.demandsAll]
      exact (column.render_follows hschema hsees).bind fun _ _ =>
        (ResultColumn.renderAll_follows hschema hsees rest).last

/-- Rendering an ordering follows the demands of its terms in turn, reversed or not. -/
theorem OrderingTerm.renderAll_follows {schema : Schema} {scope : Scope} {chain : List Frame}
    (hschema : scope.schema = schema) (hsees : Sees scope chain) (reversed : Bool) :
    (terms : List OrderingTerm) →
      Follows schema (OrderingTerm.renderAll scope reversed terms)
        (OrderingTerm.demandsAll scope chain terms)
  | [] => .ok _
  | ⟨e, direction⟩ :: rest => by
      rw [OrderingTerm.renderAll, OrderingTerm.demandsAll]
      exact (e.render_follows hschema hsees false).bind fun _ _ =>
        (OrderingTerm.renderAll_follows hschema hsees reversed rest).last

/-- **A statement follows its demands**, in a scope with names for its leaves. -/
theorem Query.render_follows {schema : Schema} {scope : Scope} {together : List SourceId}
    {outer : List Frame} (hschema : scope.schema = schema) : (q : Query) →
    q.namedIds ⊆ together → SeesAmong scope together outer →
    Follows schema (q.render scope) (q.demands scope together outer)
  | ⟨selection, distinct, source, filter, groupBy, having, orderings, reversed, limit⟩,
      hsubset, hamong => by
      have hleaves : Source.leafIdsOf source ⊆ together :=
        fun _ hid => hsubset (Query.leafIds_subset _ hid)
      -- The clauses see the statement's own FROM tree; its subqueries do not.
      have hsees := hamong _ hleaves
      rw [Query.namedIds, Query.occurrences_eq] at hsubset
      rw [Query.render, Query.demands]
      refine Follows.bind ?_ fun _ _ => ?_
      · rw [Clauses.selectList]
        split
        · exact .ok _
        · exact (ResultColumn.renderAll_follows hschema hsees selection).bind fun _ _ =>
            (Source.renderColumns_follows hschema hsees source).last
      refine (Source.renderClause_follows hschema source hsubset hleaves hamong).bind
        fun _ _ => ?_
      refine (Expr.renderClause_follows hschema hsees .where filter).bind fun _ _ => ?_
      refine (Expr.renderAll_follows hschema hsees groupBy).bind fun _ _ => ?_
      refine (Expr.renderClause_follows hschema hsees .having having).bind fun _ _ => ?_
      exact (OrderingTerm.renderAll_follows hschema hsees reversed orderings).last

/-- Rendering the columns that joins add follows their demands. -/
theorem Source.renderColumns_follows {schema : Schema} {scope : Scope} {chain : List Frame}
    (hschema : scope.schema = schema) (hsees : Sees scope chain) : (source : Option Source) →
    Follows schema (Source.renderColumns scope source) (Source.demandsColumns scope chain source)
  | none => .ok _
  | some (.table _ _ _) => .ok _
  | some (.subquery _ _ _) => .ok _
  | some (.joinTree _ _ joins) => by
      rw [Source.renderColumns, Source.demandsColumns]
      exact Join.renderColumns_follows hschema hsees joins

/-- Rendering a FROM clause follows its demands, if its leaves are among those named together. -/
theorem Source.renderClause_follows {schema : Schema} {scope : Scope} {frame : Frame}
    {outer : List Frame} (hschema : scope.schema = schema) : (source : Option Source) →
    ((source.map Source.occurrences).getD []).map (·.id) ⊆ frame.together →
    frame.leaves ⊆ frame.together → SeesAmong scope frame.together outer →
    Follows schema (Source.renderClause scope source)
      (Source.demandsClause scope frame outer source)
  | none, _, _, _ => .ok _
  | some source, hsubset, hleaves, hamong => by
      rw [Source.renderClause, Source.demandsClause, Clauses.behind]
      exact (source.render_follows hschema hsubset hleaves hamong).map _

/-- Rendering the columns of joins, and of the joins below them, follows their demands in turn. -/
theorem Join.renderColumns_follows {schema : Schema} {scope : Scope} {chain : List Frame}
    (hschema : scope.schema = schema) (hsees : Sees scope chain) : (joins : List Join) →
    Follows schema (Join.renderColumns scope joins) (Join.demandsColumns scope chain joins)
  | [] => .ok _
  | ⟨included, _, ⟨_, target, _, _, selection, joins⟩⟩ :: rest => by
      have hnested := Join.renderColumns_follows hschema hsees joins
      have hrest := Join.renderColumns_follows hschema hsees rest
      rw [Join.renderColumns, Join.demandsColumns]
      cases included
      · exact (Follows.ok []).bind fun _ _ => hnested.bind fun _ _ => hrest.last
      · exact (ResultColumn.renderAll_follows hschema hsees (selection target.id)).bind fun _ _ =>
          hnested.bind fun _ _ => hrest.last

/-- Rendering a source follows its demands, those of the query inside it and of the joins on it. -/
theorem Source.render_follows {schema : Schema} {scope : Scope} {frame : Frame}
    {outer : List Frame} (hschema : scope.schema = schema) : (s : Source) →
    s.occurrences.map (·.id) ⊆ frame.together → frame.leaves ⊆ frame.together →
    SeesAmong scope frame.together outer →
    Follows schema (s.render scope) (s.demands scope frame outer)
  | .table id name label, _, _, _ => by
      rw [Source.render, Source.demands]
      exact .ok _
  | .subquery id query label, hsubset, _, hamong => by
      rw [Source.occurrences, List.map_cons] at hsubset
      rw [Source.render, Source.demands]
      exact (query.render_follows hschema (List.subset_of_cons_subset hsubset) hamong).last
  | .joinTree id left joins, hsubset, hleaves, hamong => by
      rw [Source.occurrences, List.map_append, List.append_subset] at hsubset
      rw [Source.render, Source.demands]
      exact (left.render_follows hschema hsubset.1 hleaves hamong).bind fun _ _ =>
        (Join.renderAll_follows hschema joins hsubset.2 hleaves hamong [] _).last

/-- Rendering joins follows their demands: each join with all below it, then the next one on the
same left source. -/
theorem Join.renderAll_follows {schema : Schema} {scope : Scope} {frame : Frame}
    {outer : List Frame} (hschema : scope.schema = schema) : (joins : List Join) →
    (Join.occurrences joins).map (·.id) ⊆ frame.together → frame.leaves ⊆ frame.together →
    SeesAmong scope frame.together outer → (above : List JoinKind) → (left : Clauses.Anchor) →
    Follows schema (Join.renderAll scope left (decide (.left ∈ above)) joins)
      (Join.demands scope frame outer above left joins)
  | [], _, _, _, _, _ => .ok _
  | ⟨included, kind, ⟨name, target, mapping, condition, selection, joins⟩⟩ :: rest, hsubset,
      hleaves, hamong, above, left => by
      have hsees : Sees scope (frame :: outer) := hamong _ hleaves
      rw [Join.occurrences, List.map_append, List.map_append, List.append_subset,
        List.append_subset] at hsubset
      obtain ⟨⟨htarget, hjoins⟩, hrest⟩ := hsubset
      -- The flag that rendering hands down says whether one of the joins above is optional.
      have hflag : (decide (.left ∈ above) || decide (kind = .left)) =
          decide (JoinKind.left ∈ kind :: above) := by
        rw [← Bool.decide_or]
        exact decide_eq_decide.mpr (by rw [List.mem_cons, or_comm, eq_comm])
      rw [Join.renderAll, Join.demands, hflag, hschema, ← bind_assoc]
      refine Follows.cons (.of_check ?_) fun _ _ => ?_
      · exact id_map _
      refine (target.render_follows hschema htarget hleaves hamong).bind fun _ _ => ?_
      refine (Clauses.onClause_follows kind
        (Clauses.mappingTerms_follows hsees left.id target.id mapping)
        (Expr.renderAll_follows hschema hsees (condition left.id target.id))).bind fun _ _ => ?_
      exact (Join.renderAll_follows hschema joins hjoins hleaves hamong (kind :: above) _).bind
        fun _ _ => (Join.renderAll_follows hschema rest hrest hleaves hamong above left).last

end

/-- **Writing a statement follows its demands**: it succeeds if they are met, and otherwise fails as
the first that is not. -/
theorem Query.fragment_follows (schema : Schema) (q : Query) :
    Follows schema (q.fragment schema) (q.allDemands schema) := by
  rw [Query.fragment, Query.allDemands]
  refine .inside fun scope hscope => ?_
  obtain ⟨hamong, hschema⟩ := (sees_outermost schema).enter hscope
  exact q.render_follows hschema (List.Subset.refl _) hamong

end RelationalQuery
