/-
  RelationalQuery.Proofs.Statement.Wiring — every join is written with the names of its own sources.

  A statement is put together from three walks over the joins of its source: one gives the joined
  sources, one the conditions, one the columns that relations add. They agree only through ids.
  The wiring says what they agree on: it follows the tree of joins, carries the sources introduced
  so far, and at each join ties the source on the left and the target to the names that the
  FROM clause introduces for these two and no others.

  Main definitions:
    * `Sql.Writes`: in some places, a source is written by its introduced name.
    * `Sql.Wired`: the joins, their clauses and their columns, tied together.

  Main statements:
    * `Join.wiring`: the induction over the tree of joins.
    * `Session.Reachable.wired`: of every query that building gives.
-/

import RelationalQuery.Proofs.Building.Reachable
import RelationalQuery.Proofs.Statement.Explained
import RelationalQuery.Proofs.Statement.Writing

namespace RelationalQuery

open Sql

namespace Sql

/-! ## What wiring is -/

/-- What is joined in a FROM clause, in order. -/
def From.joins : From → List JoinClause
  | .joined _ joins => joins
  | _ => []

/-- The joins of a statement's FROM clause. -/
def Statement.joins (s : Statement) : List JoinClause := (s.source.map From.joins).getD []

/-- The statement's own FROM clause, as the outermost one. -/
def Statement.level (s : Statement) : Level := ⟨s.leaves, s.occurrences⟩

/-- The leaf's own name, as what is written in front of its columns. -/
def Leaf.reference (leaf : Leaf) : Reference := ⟨leaf.id, leaf.name⟩

/-- Among the sites, which stand inside the FROM clauses `chain`, every reference to the leaf is
written with the leaf's name. A reference inside nested statements counts unless one of them names
the leaf itself. -/
def Writes (chain : List Level) (leaf : Leaf) (sites : List Site) : Prop :=
  ∀ inner r, .reference (inner ++ chain) r ∈ sites → r.source = leaf.id →
    (∀ l ∈ inner, leaf.id ∉ l.occurrences.map (·.id)) → r.qualifier = leaf.name

/-- One join and its clause: the clause introduces the target; the equalities of the mapping are
between the target and the left source; and so are the further terms, which are those of the
relation's condition for these two. -/
structure ClauseWired (scope : Scope) (chain : List Level) (left target : Leaf) (kind : JoinKind)
    (r : Relation) (clause : JoinClause) : Prop where
  kind_eq : clause.kind = kind
  id_eq : target.id = r.target.id
  introduces : clause.target.leaves = [target]
  mapped : clause.mapped = if kind = .cross then [] else
    r.mapping.map fun pair => ⟨target.reference, pair.2, left.reference, pair.1⟩
  condition : (if kind = .cross then .ok [] else
    Expr.resolveAll scope (r.condition left.id target.id)) = .ok clause.own
  writes_target : Writes chain target (Term.sitesAll chain clause.own)
  writes_left : Writes chain left (Term.sitesAll chain clause.own)

/-- One join and the columns that it adds: none when it is not included, and otherwise those of its
selection for the target. The default selection is the target's star. -/
structure ItemsWired (scope : Scope) (chain : List Level) (target : Leaf) (included : Bool)
    (r : Relation) (items : List Item) : Prop where
  selection : (if included then ResultColumn.resolveAll scope (r.selection target.id)
    else .ok []) = .ok items
  star : included → r.selection target.id = [.star target.id] → items = [.star target.reference]
  writes_target : Writes chain target (Item.sitesAll chain items)

/-- Joins on one left source, with the clauses and the columns of them and of all below. `before`
are the sources that the FROM clause has introduced so far; the left source is among them. -/
inductive Wired (scope : Scope) (chain : List Level) :
    List Leaf → Leaf → List Join → List JoinClause → List Item → Prop
  | nil {before : List Leaf} {left : Leaf} : Wired scope chain before left [] [] []
  | cons {before : List Leaf} {left target : Leaf} {included : Bool} {kind : JoinKind}
      {r : Relation} {rest : List Join} {clause : JoinClause} {below others : List JoinClause}
      {own nested further : List Item} (introduced : left ∈ before)
      (hclause : ClauseWired scope chain left target kind r clause)
      (hitems : ItemsWired scope chain target included r own)
      (hbelow : Wired scope chain (before ++ [target]) target r.joins below nested)
      (hrest : Wired scope chain (before ++ target :: JoinClause.leaves below) left rest others
        further) :
      Wired scope chain before left (⟨included, kind, r⟩ :: rest) (clause :: below ++ others)
        (own ++ nested ++ further)

end Sql

/-! ## One join -/

section Wiring

variable {scope : Scope} {level : Level} {outer : List Level}

/-- A scope knows the sources of the innermost FROM clause by their names. -/
theorem Fits.find? (hfits : Fits scope.namings (level :: outer)) {leaf : Leaf}
    (hleaf : leaf ∈ level.leaves) : scope.find? leaf.id = some leaf.name := by
  rw [Scope.find?]
  generalize scope.namings = namings at hfits
  cases hfits with
  | inside _ hintroduced _ => rw [List.findSome?_cons, hintroduced leaf hleaf]

/-- In places that are explained a leaf is written by its introduced name. -/
theorem Sql.Writes.of_explained {leaf : Leaf} (hleaf : leaf ∈ level.leaves) {sites : List Site}
    (h : ∀ site ∈ sites, site.Explained) : Writes (level :: outer) leaf sites := by
  intro inner r hsite hsource hinner
  obtain ⟨namings, hfits, hname⟩ := h _ hsite
  rw [hsource] at hname
  exact Fits.qualifier_eq hleaf inner namings hfits hname hinner

/-- A reference to a leaf that is found resolves to the leaf's own name. -/
theorem Sql.Reference.resolve_of_find? {leaf : Leaf} (h : scope.find? leaf.id = some leaf.name)
    (column : String) : Reference.resolve scope leaf.id column = .ok leaf.reference := by
  rw [Reference.resolve, Scope.name, h]
  rfl

/-- The equalities of a mapping are between the target and the left source. -/
theorem Sql.Equality.resolveAll_eq {left target : Leaf}
    (hleft : scope.find? left.id = some left.name)
    (htarget : scope.find? target.id = some target.name) : (mapping : List (String × String)) →
    Equality.resolveAll scope left.id target.id mapping = .ok
      (mapping.map fun pair => ⟨target.reference, pair.2, left.reference, pair.1⟩)
  | [] => rfl
  | (leftColumn, targetColumn) :: rest => by
      rw [Equality.resolveAll, Reference.resolve_of_find? htarget,
        Reference.resolve_of_find? hleft, Equality.resolveAll_eq hleft htarget rest]
      rfl

/-- The terms of a join condition, by the kind of the join. -/
theorem Sql.of_conditionOf {kind : JoinKind} {es : List Equality}
    {own : Except QueryError (List Term)} {on : List Equality × List Term}
    (h : conditionOf kind (.ok es) own = .ok on) :
    on.1 = (if kind = .cross then [] else es) ∧
      (if kind = .cross then .ok [] else own) = .ok on.2 := by
  cases kind with
  | cross =>
      -- A cross join has no condition at all.
      cases h
      exact ⟨rfl, rfl⟩
  | inner =>
      obtain ⟨_, hes, h⟩ := bind_eq_ok.mp h
      obtain ⟨ts, hts, h⟩ := bind_eq_ok.mp h
      cases hes
      rw [← pure_eq_ok.mp h]
      exact ⟨rfl, hts⟩
  | left =>
      obtain ⟨_, hes, h⟩ := bind_eq_ok.mp h
      obtain ⟨ts, hts, h⟩ := bind_eq_ok.mp h
      cases hes
      rw [← pure_eq_ok.mp h]
      exact ⟨rfl, hts⟩

/-- A join and its clause are wired, when left source and target are introduced. -/
theorem Join.clauseWired (hfits : Fits scope.namings (level :: outer)) {left target : Leaf}
    (hleft : left ∈ level.leaves) (htarget : target ∈ level.leaves) {kind : JoinKind}
    {r : Relation} (hid : target.id = r.target.id) {source : From}
    (hsource : source.leaves = [target])
    (hsound : ∀ p ∈ (r.condition left.id target.id).flatMap Expr.subqueries, p.Sound)
    {on : List Equality × List Term}
    (hon : conditionOf kind (Equality.resolveAll scope left.id target.id r.mapping)
      (Expr.resolveAll scope (r.condition left.id target.id)) = .ok on) :
    ClauseWired scope (level :: outer) left target kind r ⟨kind, source, on.1, on.2⟩ := by
  -- Both ends of the mapping are in the FROM clause, so its columns get their names there.
  have hmapping := Equality.resolveAll_eq (hfits.find? hleft) (hfits.find? htarget) r.mapping
  rw [hmapping] at hon
  obtain ⟨hmapped, hown⟩ := of_conditionOf hon
  have hexplained : ∀ site ∈ Term.sitesAll (level :: outer) on.2, site.Explained := by
    -- A cross join has no condition.
    split at hown
    · rw [← Except.ok.inj hown]
      intro site hsite
      cases hsite
    · rw [← Expr.subqueriesAll_eq] at hsound
      exact Expr.sitesAll_explained hfits _ hsound on.2 hown
  exact ⟨rfl, hid, hsource, hmapped, hown, .of_explained htarget hexplained,
    .of_explained hleft hexplained⟩

theorem Join.itemsWired (hfits : Fits scope.namings (level :: outer)) {target : Leaf}
    (htarget : target ∈ level.leaves) {included : Bool} {r : Relation}
    (hsound : ∀ p ∈ (r.selection target.id).flatMap ResultColumn.subqueries, p.Sound)
    {items : List Item}
    (hitems : (if included then ResultColumn.resolveAll scope (r.selection target.id)
      else .ok []) = .ok items) :
    ItemsWired scope (level :: outer) target included r items := by
  refine ⟨hitems, ?_, .of_explained htarget ?_⟩
  · intro hincluded hstar
    rw [if_pos hincluded, hstar, ResultColumn.resolveAll, ResultColumn.resolve,
      Reference.resolve_of_find? (hfits.find? htarget)] at hitems
    cases hitems
    rfl
  · split at hitems
    · exact ResultColumn.sitesAll_explained hfits _ hsound items hitems
    · cases hitems
      intro site hsite
      cases hsite

/-- A leaf is joined under the id that it introduces. -/
theorem Source.anchor_introduced (scope : Scope) {s : Source} (h : s.IsLeaf) :
    Clauses.anchor s = ⟨(s.introduced scope).id, (Clauses.anchor s).table⟩ := by
  rw [Source.id_introduced]
  unfold Clauses.anchor
  rw [Source.root_of_isLeaf h]

/-! ## The tree of joins -/

/-- **Joins are wired**, whatever is introduced before them. -/
theorem Join.wiring (hfits : Fits scope.namings (level :: outer)) : (joins : List Join) →
    (∀ t ∈ Join.targets joins, t.IsLeaf) →
    (∀ t ∈ Join.targets joins, t.introduced scope ∈ level.leaves) →
    (∀ p, Join.Nests p joins → p.Sound) → ∀ (before : List Leaf) (left : Leaf), left ∈ before →
    left ∈ level.leaves → ∀ (table : Option String) (afterOptional : Bool) clauses,
    Join.resolveAll scope ⟨left.id, table⟩ afterOptional joins = .ok clauses → ∀ items,
    Join.resolveColumns scope joins = .ok items →
      Wired scope (level :: outer) before left joins clauses items
  | [], _, _, _, before, left, _, _, _, _, clauses, hclauses, items, hitems => by
      rw [Join.resolveAll] at hclauses
      rw [Join.resolveColumns] at hitems
      cases hclauses
      cases hitems
      exact .nil
  | ⟨included, kind, ⟨name, target, mapping, condition, selection, joins⟩⟩ :: rest, hleaf,
      hintroduced, hsound, before, left, hbefore, hleft, table, afterOptional, clauses, hclauses,
      items, hitems => by
      rw [Join.targets, Relation.targets, List.cons_append, List.forall_mem_cons,
        List.forall_mem_append] at hleaf hintroduced
      simp only [Join.Nests, or_imp, forall_and, forall_exists_index] at hsound
      obtain ⟨_, hcondition, hselection, hjoins, hrest⟩ := hsound
      obtain ⟨source, on, below, others, hsource, hon, hbelow, hothers, rfl⟩ :=
        Join.of_resolveAll_cons hclauses
      obtain ⟨own, nested, further, hown, hnested, hfurther, rfl⟩ :=
        Join.of_resolveColumns_cons hitems
      have hid : (target.introduced scope).id = target.id := Source.id_introduced scope target
      -- The target, being a leaf, is what the joins below it have on their left.
      rw [Source.anchor_introduced scope hleaf.1] at hbelow
      rw [← hid] at hon hown
      refine .cons hbefore
        (Join.clauseWired hfits hleft hintroduced.1 hid
          (Source.leaves_of_resolve_leaf hleaf.1 hsource) (fun p hp => hcondition p _ _ hp) hon)
        (Join.itemsWired hfits hintroduced.1 (fun p hp => hselection p _ hp) hown) ?_ ?_
      · exact Join.wiring hfits joins hleaf.2.1 hintroduced.2.1 hjoins _ _
          (List.mem_append_right _ (List.mem_singleton_self _)) hintroduced.1 _ _ below hbelow
          nested hnested
      · exact Join.wiring hfits rest hleaf.2.2 hintroduced.2.2 hrest _ left
          (List.mem_append_left _ hbefore) hleft table afterOptional others hothers further
          hfurther

end Wiring

/-! ## Statements -/

/-- Relations that select nothing add no columns. -/
theorem Join.resolveColumns_of_emitted {scope : Scope} : (joins : List Join) →
    Join.emittedAll joins = [] → Join.resolveColumns scope joins = .ok []
  | [], _ => by rw [Join.resolveColumns]
  | ⟨included, _, ⟨_, target, _, _, selection, joins⟩⟩ :: rest, h => by
      rw [Join.emittedAll, Relation.emitted, List.append_eq_nil_iff,
        List.append_eq_nil_iff] at h
      obtain ⟨⟨hown, hnested⟩, hrest⟩ := h
      -- Nothing is emitted, so what an included relation selects is nothing.
      have hselected : (if included then ResultColumn.resolveAll scope (selection target.id)
          else .ok []) = .ok [] := by
        cases included
        · rfl
        · show ResultColumn.resolveAll scope (selection target.id) = .ok []
          rw [show selection target.id = [] from hown, ResultColumn.resolveAll]
      rw [Join.resolveColumns, hselected, Join.resolveColumns_of_emitted joins hnested,
        Join.resolveColumns_of_emitted rest hrest]
      rfl

/-- The columns that a FROM clause adds are those that its joins add. -/
theorem Source.resolveColumns_eq (scope : Scope) (s : Source) :
    Source.resolveColumns scope (some s) = Join.resolveColumns scope s.joins := by
  cases s <;> rfl

/-- The FROM clause and the added columns of a resolved query. -/
theorem Query.of_resolve {scope : Scope} {q : Query} {s : Source} (hs : q.source = some s)
    {statement : Statement} (h : q.resolve scope = .ok statement) :
    ∃ clause, s.resolve scope = .ok clause ∧ statement.source = some clause ∧
      Join.resolveColumns scope s.joins = .ok statement.added := by
  have hresolution := Query.resolve_eq_ok.mp h
  have hclause := hresolution.source
  have hitems := hresolution.items
  rw [hs] at hclause hitems
  obtain ⟨clause, hsource, hclause⟩ := map_eq_ok.mp hclause
  refine ⟨clause, hsource, hclause.symm, ?_⟩
  rw [Source.resolveColumns_eq] at hitems
  unfold itemsOf at hitems
  split at hitems
  · -- The list is a lone star, so the relations select nothing.
    rename_i hwhole
    obtain ⟨_, hadded⟩ := Prod.mk.inj (Except.ok.inj hitems)
    rw [← hadded]
    refine Join.resolveColumns_of_emitted s.joins ?_
    unfold Clauses.readsWhole at hwhole
    split at hwhole
    · rename_i id heq
      cases heq
      rw [Bool.and_eq_true, List.isEmpty_iff] at hwhole
      exact hwhole.1
    · cases hwhole
  · obtain ⟨_, _, hitems⟩ := bind_eq_ok.mp hitems
    obtain ⟨added, hadded, hitems⟩ := bind_eq_ok.mp hitems
    obtain ⟨_, rfl⟩ := Prod.mk.inj (pure_eq_ok.mp hitems)
    exact hadded

/-- The FROM clause of a join tree: what its base introduces, and then its joins. -/
theorem Source.joins_of_resolve {scope : Scope} {s : Source} (hbase : s.base.IsLeaf)
    {clause : From} (h : s.resolve scope = .ok clause) :
    Join.resolveAll scope (Clauses.anchor s.base) false s.joins = .ok clause.joins ∧
      clause.leaves = s.base.introduced scope :: JoinClause.leaves clause.joins := by
  match s with
  | .table id name label =>
      have hleaves := Source.leaves_of_resolve_leaf (s := .table id name label) trivial h
      rw [Source.resolve] at h
      cases h
      refine ⟨?_, hleaves⟩
      -- A leaf has no joins.
      show Join.resolveAll scope _ false [] = .ok []
      rw [Join.resolveAll]
  | .subquery id query label =>
      have hleaves := Source.leaves_of_resolve_leaf (s := .subquery id query label) trivial h
      rw [Source.resolve] at h
      obtain ⟨statement, _, h⟩ := bind_eq_ok.mp h
      cases h
      refine ⟨?_, hleaves⟩
      show Join.resolveAll scope _ false [] = .ok []
      rw [Join.resolveAll]
  | .joinTree id left joins =>
      rw [Source.resolve] at h
      obtain ⟨source, hsource, h⟩ := bind_eq_ok.mp h
      obtain ⟨clauses, hclauses, h⟩ := bind_eq_ok.mp h
      rw [← pure_eq_ok.mp h]
      refine ⟨hclauses, ?_⟩
      rw [From.leaves, Source.leaves_of_resolve_leaf hbase hsource]
      rfl

/-- The base of a FROM tree has a name in the statement just when it asks for one. -/
theorem Source.base_named {scope : Scope} {os : List Occurrence} {outer : List Level}
    (hnamed : NamedAmong os outer scope.namings) {s : Source} (hbase : s.base.IsLeaf)
    (hfirst : Naming.first? os s.base.id = some s.base.occurrence) {leaf : Leaf}
    (hfind : scope.find? s.base.id = some leaf.name) : leaf.name.isSome = s.name?.isSome := by
  -- The base of a tree is a leaf, and lends the tree its name.
  have hname : s.base.occurrence.name = s.name? := by
    match s, hbase with
    | .table .., _ => rfl
    | .subquery .., _ => rfl
    | .joinTree _ (.table ..) _, _ => rfl
    | .joinTree _ (.subquery ..) _, _ => rfl
  rw [Scope.find?] at hfind
  generalize scope.namings = namings at hnamed hfind
  obtain ⟨hchosen, _⟩ := hnamed
  cases hasked : s.name? with
  | none =>
      have hlookup := Naming.lookup_unnamed hchosen hfirst (hname.trans hasked)
      rw [List.findSome?_cons, hlookup] at hfind
      rw [← Option.some.inj hfind]
  | some asked =>
      have hsome : s.base.occurrence.name.isSome := by
        rw [hname, hasked]
        rfl
      obtain ⟨name, hlookup⟩ := Naming.lookup_named hchosen hfirst hsome
      rw [List.findSome?_cons, hlookup] at hfind
      rw [← Option.some.inj hfind]
      rfl

/-- The base of a FROM tree is its first leaf. -/
theorem Source.first?_base {s : Source} (hbase : s.base.IsLeaf) :
    Naming.first? s.occurrences s.base.id = some s.base.occurrence := by
  rw [Source.occurrences_eq, Source.leaves, List.flatMap_cons]
  cases hs : s.base with
  | table =>
      rw [Source.occurrences, List.singleton_append, Naming.first?_cons]
      exact if_pos rfl
  | subquery =>
      rw [Source.occurrences, List.cons_append, Naming.first?_cons]
      exact if_pos rfl
  | joinTree =>
      rw [hs] at hbase
      exact hbase.elim

/-- The statement that a query compiles to: its leaves are those of the FROM tree, under the names
that were chosen for them. -/
theorem Query.named_of_compile {schema : Schema} {q : Query} {s : Source} (hsound : q.Sound)
    (hs : q.source = some s) {sql : BoundSql} (hcompile : q.compile schema = .ok sql) :
    ∃ scope statement, (Scope.outermost schema).enter q.occurrences = .ok scope ∧
      q.resolve scope = .ok statement ∧ statement.write.build = .ok sql ∧
      statement.leaves = s.leaves.map (Source.introduced scope) ∧ WellNamed statement.leaves ∧
      Fits scope.namings [statement.level] ∧ NamedAmong s.occurrences [] scope.namings := by
  obtain ⟨statement, hstatement, hbuild⟩ := Query.statement_of_compile hcompile
  obtain ⟨scope, hscope, hresolve⟩ := bind_eq_ok.mp hstatement
  have hproper := hsound.proper hs
  obtain ⟨clause, hclause, hsource, _⟩ := Query.of_resolve hs hresolve
  have hoccurrences : q.occurrences = s.occurrences := by
    rw [Query.occurrences_eq, hs]
    rfl
  have hnamed := namedAmong_of_enter .outermost hscope
  rw [hoccurrences] at hnamed
  obtain ⟨hfits, hwell⟩ := Source.fits_of_resolveClause hnamed
    (fun s' hs' => Option.some.inj hs' ▸ hproper) (List.Subset.refl _) hproper.coherent
    (map_eq_ok.mpr ⟨clause, hclause, rfl⟩)
  -- The statement has just this one FROM clause.
  have hlevel : statement.level = ⟨clause.leaves, s.occurrences⟩ := by
    rw [Statement.level, Statement.leaves, hsource, ← hoccurrences,
      Query.occurrences_of_resolve q statement hresolve]
    rfl
  have hleaves : statement.leaves = clause.leaves := congrArg Level.leaves hlevel
  exact ⟨scope, statement, hscope, hresolve, hbuild,
    hleaves.trans (Source.leaves_of_resolve hproper.leaf hclause), hleaves ▸ hwell,
    hlevel ▸ hfits, hnamed⟩

/-- **One occurrence, one name, everywhere.** Of every query that building gives and that
compiles: the FROM clause introduces the root and then the target of every join, depth first, each
once and by a name of its own, which only the root can lack, and lacks just when it asks for none;
and the joins are wired from the root on, so that what a join says of its two sources is written
with the names that introduce these two, both of them introduced before the condition is. -/
theorem Session.Reachable.wired {σ : Session} (hσ : σ.Reachable) {q : Query}
    (hq : .query q ∈ σ.held) {schema : Schema} {sql : BoundSql}
    (hcompile : q.compile schema = .ok sql) {s : Source} (hs : q.source = some s) :
    ∃ scope statement root, (Scope.outermost schema).enter q.occurrences = .ok scope ∧
      q.resolve scope = .ok statement ∧ statement.write.build = .ok sql ∧
      statement.leaves = root :: JoinClause.leaves statement.joins ∧
      statement.leaves.map (·.id) = s.root.id :: (Join.targets s.joins).map Source.id ∧
      WellNamed statement.leaves ∧ root.name.isSome = s.name?.isSome ∧
      Wired scope [statement.level] [root] root s.joins statement.joins statement.added := by
  have hsound := hσ.sound hq
  have hproper := hsound.proper hs
  obtain ⟨hbase, htargets⟩ := List.forall_mem_cons.mp hproper.leaf
  obtain ⟨scope, statement, hscope, hresolve, hbuild, hall, hwell, hfits, hnamed⟩ :=
    Query.named_of_compile hsound hs hcompile
  obtain ⟨clause, hclause, hsource, hadded⟩ := Query.of_resolve hs hresolve
  obtain ⟨hjoins, hclauseLeaves⟩ := Source.joins_of_resolve hbase hclause
  -- The statement is described by its FROM clause, and that by the leaves of the source.
  have hstatementJoins : statement.joins = clause.joins := by
    rw [Statement.joins, hsource]
    rfl
  have hleaves : statement.leaves = s.base.introduced scope :: JoinClause.leaves clause.joins := by
    rw [← hclauseLeaves, Statement.leaves, hsource]
    rfl
  have hroot : s.base.introduced scope ∈ statement.leaves := hleaves ▸ List.mem_cons_self ..
  have hid : (s.base.introduced scope).id = s.base.id := Source.id_introduced scope s.base
  refine ⟨scope, statement, s.base.introduced scope, hscope, hresolve, hbuild, ?_⟩
  rw [hstatementJoins]
  refine ⟨hleaves, ?_, hwell, ?_, ?_⟩
  · rw [hall, List.map_map, Source.root_eq_base hbase]
    exact List.map_congr_left fun t _ => Source.id_introduced scope t
  · exact Source.base_named hnamed hbase (Source.first?_base hbase) (hid ▸ hfits.find? hroot)
  · -- The joins hang on the base, under the name that the FROM clause introduces for it.
    rw [Source.anchor_introduced scope hbase] at hjoins
    refine Join.wiring hfits s.joins htargets ?_ ?_ _ _ (List.mem_singleton_self _) hroot _ _ _
      hjoins _ hadded
    · intro t ht
      show t.introduced scope ∈ statement.leaves
      rw [hall]
      exact List.mem_map_of_mem (List.mem_cons_of_mem _ ht)
    · intro p hp
      exact hsound.nested (Or.inr ⟨s, hs, Source.nests_joins hp⟩)

/-- People who are led are joined with their leaders under two names. -/
theorem ledPeople_wired : ∃ scope s statement, ledPeople.source = some s ∧
    ledPeople.statement people = .ok statement ∧
    statement.leaves =
      [⟨⟨0⟩, some "persons"⟩, ⟨⟨2⟩, some "leader0"⟩, ⟨⟨3⟩, some "leader1"⟩] ∧
    Wired scope [statement.level] [⟨⟨0⟩, some "persons"⟩] ⟨⟨0⟩, some "persons"⟩ s.joins
      statement.joins statement.added := by
  obtain ⟨σ, hσ, hq⟩ := reachable_ledPeople
  obtain ⟨sql, hsql⟩ : ∃ sql, ledPeople.compile people = .ok sql := exists_ok (by decide +kernel)
  obtain ⟨s, hs⟩ : ∃ s, ledPeople.source = some s := Option.isSome_iff_exists.mp (by decide +kernel)
  obtain ⟨scope, statement, root, hscope, hresolve, _, hleaves, _, _, _, hwired⟩ :=
    hσ.wired hq hsql hs
  have hstatement : ledPeople.statement people = .ok statement := by
    rw [Query.statement, hscope]
    exact hresolve
  -- The statement is computed, and its first leaf is the root.
  have hcomputed : (ledPeople.statement people).toOption.map Statement.leaves =
      some [⟨⟨0⟩, some "persons"⟩, ⟨⟨2⟩, some "leader0"⟩, ⟨⟨3⟩, some "leader1"⟩] := by
    decide +kernel
  rw [hstatement] at hcomputed
  have hall := Option.some.inj hcomputed
  have hroot := (List.cons.inj (hleaves.symm.trans hall)).1
  rw [hroot] at hwired
  exact ⟨scope, s, statement, hs, hstatement, hall, hwired⟩

/-! ## A condition that reads its left source again -/

/-- People with their leaders, by a condition that looks for the person among people. -/
def selfRead : Supply Query := do
  let person ← Query.table "persons"
  let leader ← Relation.toTable "leader" "persons" fun left right =>
    .exists (person.restrict (.equal (.column (some left) "id") (.column (some right) "id")))
  person.includeOptional [leader]

/-- **A nested statement can take over the left source of a condition**: when it reads that very
occurrence, what is built from the left source means the nested one, under another name. -/
theorem shadowed_reference : ∃ σ : Session, σ.Reachable ∧
    .query (selfRead.run 0).1 ∈ σ.held ∧ ∃ sql statement root clause inner r,
      (selfRead.run 0).1.compile people = .ok sql ∧
      (selfRead.run 0).1.statement people = .ok statement ∧
      root ∈ statement.leaves ∧ clause ∈ statement.joins ∧
      .reference (inner ++ [statement.level]) r ∈ Term.sitesAll [statement.level] clause.own ∧
      r.source = root.id ∧ r.qualifier ≠ root.name := by
  have hperson := Session.Reachable.start.table "persons"
  -- Whatever the condition is called with, its query is one more value over the people.
  have hleader := hperson.toTable "leader" "persons" (fun left right => .exists
      ((Query.table "persons" |>.run 0).1.restrict
        (.equal (.column (some left) "id") (.column (some right) "id"))))
    (fun _ _ => _) (fun left right => hperson.restrict (List.mem_cons_self ..)
      (.equal (.column (some left) "id") (.column (some right) "id")) fun p hp => by cases hp)
    (fun _ _ => List.forall_mem_singleton.mpr (List.mem_cons_self ..))
  have hall := hleader.attach (List.mem_cons_of_mem _ (List.mem_cons_self ..)) .left true [_]
    (List.forall_mem_singleton.mpr (List.mem_cons_self ..))
  obtain ⟨sql, hsql⟩ : ∃ sql, (selfRead.run 0).1.compile people = .ok sql :=
    exists_ok (by decide +kernel)
  obtain ⟨statement, hstatement, _⟩ := Query.statement_of_compile hsql
  let inside : Level := ⟨[⟨⟨0⟩, some "persons0"⟩], [⟨⟨0⟩, some "persons", false⟩]⟩
  have hcomputed : ((selfRead.run 0).1.statement people).toOption.any (fun s =>
      decide (⟨⟨0⟩, some "persons"⟩ ∈ s.leaves) && s.joins.any fun clause =>
        decide (.reference ([inside] ++ [s.level]) ⟨⟨0⟩, some "persons0"⟩ ∈
          Term.sitesAll [s.level] clause.own)) = true := by
    decide +kernel
  rw [hstatement, Except.toOption, Option.any_some, Bool.and_eq_true, List.any_eq_true] at hcomputed
  obtain ⟨hroot, clause, hclause, hsite⟩ := hcomputed
  exact ⟨_, hall, List.mem_cons_self .., sql, statement, _, clause, [inside], _, hsql, hstatement,
    of_decide_eq_true hroot, hclause, of_decide_eq_true hsite, rfl, by decide⟩

end RelationalQuery
