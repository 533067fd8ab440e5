/-
  RelationalQuery.Proofs.Statement.Explained — every place of a statement, in one walk.

  The walk follows resolution. Its invariant is that the FROM clauses around the place where it
  stands fit the scope. An expression's subquery enters a scope of its own, chosen for its own
  leaves; a FROM clause's subquery keeps the scope, because its leaves are already among those
  that are named together.

  Main definition:
    * `Sql.Site.Explained`: what the walk establishes of a place.

  Main statements:
    * `Query.sites_explained`: every site of a resolved query is explained.
    * `Query.allSites_explained`: the same, of a statement that stands alone.
-/

import RelationalQuery.Proofs.Statement.Scoping

namespace RelationalQuery

open Sql

/-! ## Leaves that are named together -/

theorem Sql.JoinClause.occurrences_append : (a b : List JoinClause) →
    JoinClause.occurrences (a ++ b) = JoinClause.occurrences a ++ JoinClause.occurrences b
  | [], _ => rfl
  | ⟨_, target, _, _⟩ :: rest, b => by
      rw [List.cons_append, JoinClause.occurrences, JoinClause.occurrences,
        occurrences_append rest b, List.append_assoc]

mutual

/-- The tree of a statement has the leaves of its query. -/
theorem Query.occurrences_of_resolve {scope : Scope} : (q : Query) → ∀ s,
    q.resolve scope = .ok s → s.occurrences = q.occurrences
  | ⟨_, _, source, _, _, _, _, _, _⟩, ⟨_, _, _, clause, _, _, _, _, _⟩, h => by
      have hclause : Source.resolveClause scope source = .ok clause :=
        (Query.resolve_eq_ok.mp h).source
      match source with
      | none =>
          cases hclause
          rw [Statement.occurrences, Query.occurrences]
      | some source =>
          obtain ⟨t, ht, rfl⟩ := map_eq_ok.mp hclause
          rw [Statement.occurrences, Query.occurrences]
          exact Source.occurrences_of_resolve source t ht

/-- A resolved source has the occurrences of the source. -/
theorem Source.occurrences_of_resolve {scope : Scope} : (s : Source) → ∀ t,
    s.resolve scope = .ok t → t.occurrences = s.occurrences
  | .table id name label, t, h => by
      rw [Source.resolve] at h
      cases h
      rfl
  | .subquery id query label, t, h => by
      rw [Source.resolve] at h
      obtain ⟨statement, hstatement, h⟩ := bind_eq_ok.mp h
      rw [← pure_eq_ok.mp h, From.occurrences, Source.occurrences,
        Query.occurrences_of_resolve query statement hstatement]
  | .joinTree id left joins, t, h => by
      rw [Source.resolve] at h
      obtain ⟨source, hsource, h⟩ := bind_eq_ok.mp h
      obtain ⟨clauses, hclauses, h⟩ := bind_eq_ok.mp h
      rw [← pure_eq_ok.mp h, From.occurrences, Source.occurrences,
        Source.occurrences_of_resolve left source hsource,
        Join.occurrences_of_resolveAll joins _ _ clauses hclauses]

theorem Join.occurrences_of_resolveAll {scope : Scope} : (joins : List Join) →
    (left : Clauses.Anchor) → (afterOptional : Bool) → ∀ clauses,
    Join.resolveAll scope left afterOptional joins = .ok clauses →
      JoinClause.occurrences clauses = Join.occurrences joins
  | [], _, _, clauses, h => by
      rw [Join.resolveAll] at h
      cases h
      rfl
  | ⟨_, kind, ⟨_, target, _, _, _, joins⟩⟩ :: rest, _, _, clauses, h => by
      obtain ⟨source, on, nested, others, hsource, _, hnested, hothers, rfl⟩ :=
        Join.of_resolveAll_cons h
      rw [List.cons_append, JoinClause.occurrences, JoinClause.occurrences_append,
        Join.occurrences, Source.occurrences_of_resolve target source hsource,
        Join.occurrences_of_resolveAll joins _ _ nested hnested,
        Join.occurrences_of_resolveAll rest _ _ others hothers, List.append_assoc]

end

/-! ## Single sites -/

/-- A reference has the name that the innermost statement with its source chose for it; a
FROM clause has distinct names. -/
def Sql.Site.Explained : Site → Prop
  | .reference chain r => ∃ namings, Fits namings chain ∧
      (namings.findSome? fun naming => naming.lookup r.source) = some r.qualifier
  | .clause leaves => WellNamed leaves

/-- Where there is no site, nothing is to be explained. -/
theorem explained_nil : ∀ site ∈ ([] : List Site), site.Explained :=
  fun _ hsite => absurd hsite List.not_mem_nil

/-- A resolved reference is to the source that was asked for, by the name that the scope has for it.
-/
theorem Sql.Reference.of_resolve {scope : Scope} {source : SourceId} {column : String}
    {r : Reference} (h : Reference.resolve scope source column = .ok r) :
    r.source = source ∧ scope.find? source = some r.qualifier := by
  unfold Reference.resolve at h
  obtain ⟨name, hname, h⟩ := bind_eq_ok.mp h
  rw [← pure_eq_ok.mp h]
  -- Both look-ups end at the same entry, or there is none and no reference.
  unfold Scope.name at hname
  cases hfind : scope.find? source with
  | none =>
      rw [hfind] at hname
      cases hname
  | some found =>
      rw [hfind] at hname
      cases hname
      exact ⟨rfl, rfl⟩

section Single

variable {scope : Scope} {chain : List Level}

/-- A resolved reference is explained. -/
theorem Sql.Reference.explained (hfits : Fits scope.namings chain) {source : SourceId}
    {column : String} {r : Reference} (h : Reference.resolve scope source column = .ok r) :
    (Site.reference chain r).Explained := by
  obtain ⟨rfl, hfind⟩ := Reference.of_resolve h
  exact ⟨scope.namings, hfits, hfind⟩

theorem Sql.Equality.explained (hfits : Fits scope.namings chain) {left target : SourceId} :
    (mapping : List (String × String)) → ∀ es,
    Equality.resolveAll scope left target mapping = .ok es →
      ∀ site ∈ es.flatMap (Equality.sites chain), site.Explained
  | [], es, h => by
      cases h
      exact explained_nil
  | (leftColumn, targetColumn) :: rest, es, h => by
      rw [Equality.resolveAll] at h
      obtain ⟨targetRef, htarget, h⟩ := bind_eq_ok.mp h
      obtain ⟨leftRef, hleft, h⟩ := bind_eq_ok.mp h
      obtain ⟨others, hothers, h⟩ := bind_eq_ok.mp h
      rw [← pure_eq_ok.mp h, List.flatMap_cons, List.forall_mem_append, Equality.sites,
        List.forall_mem_cons, List.forall_mem_singleton]
      exact ⟨⟨Reference.explained hfits htarget, Reference.explained hfits hleft⟩,
        Sql.Equality.explained hfits rest others hothers⟩

theorem Sql.Term.sites_negatedIf (negated : Bool) (t : Term) :
    (Term.negatedIf negated t).sites chain = t.sites chain := by
  cases negated
  · rfl
  · rw [Term.negatedIf, if_pos rfl, Term.sites]

/-- Compared operands have the sites of those operands that are written. -/
theorem Sql.Term.explained_compared {how : Comparison} {negated : Bool} {lhs rhs : Expr}
    {left right : Except QueryError Term} {t : Term}
    (hleft : ∀ l, left = .ok l → ∀ site ∈ l.sites chain, site.Explained)
    (hright : ∀ r, right = .ok r → ∀ site ∈ r.sites chain, site.Explained)
    (h : Term.compared how negated lhs rhs left right = .ok t) :
    ∀ site ∈ t.sites chain, site.Explained := by
  unfold Term.compared at h
  split at h
  · -- A comparison with NULL is a test of the other operand.
    obtain ⟨l, hl, rfl⟩ := map_eq_ok.mp h
    rw [Term.sites]
    exact hleft l hl
  · split at h
    · obtain ⟨r, hr, rfl⟩ := map_eq_ok.mp h
      rw [Term.sites]
      exact hright r hr
    · obtain ⟨l, hl, h⟩ := bind_eq_ok.mp h
      obtain ⟨r, hr, h⟩ := bind_eq_ok.mp h
      rw [← pure_eq_ok.mp h, Term.sites, List.forall_mem_append]
      exact ⟨hleft l hl, hright r hr⟩

theorem Sql.Item.sitesAll_append : (a b : List Item) →
    Item.sitesAll chain (a ++ b) = Item.sitesAll chain a ++ Item.sitesAll chain b
  | [], _ => rfl
  | item :: rest, b => by
      rw [List.cons_append, Item.sitesAll, Item.sitesAll, Sql.Item.sitesAll_append rest b,
        List.append_assoc]

/-- The items of a select list are explained if its own and the added ones are. -/
theorem Sql.Item.explained_itemsOf {whole : Bool} {own added : Except QueryError (List Item)}
    {columns : List Item × List Item}
    (hown : ∀ items, own = .ok items → ∀ site ∈ Item.sitesAll chain items, site.Explained)
    (hadded : ∀ items, added = .ok items → ∀ site ∈ Item.sitesAll chain items, site.Explained)
    (h : itemsOf whole own added = .ok columns) :
    (∀ site ∈ Item.sitesAll chain columns.1, site.Explained) ∧
      ∀ site ∈ Item.sitesAll chain columns.2, site.Explained := by
  unfold itemsOf at h
  split at h
  · cases h
    exact ⟨explained_nil, explained_nil⟩
  · obtain ⟨items, hitems, h⟩ := bind_eq_ok.mp h
    obtain ⟨others, hothers, h⟩ := bind_eq_ok.mp h
    rw [← pure_eq_ok.mp h]
    exact ⟨hown items hitems, hadded others hothers⟩

/-- The condition of a join is explained if its mapping and its own terms are. -/
theorem Sql.Term.explained_conditionOf {kind : JoinKind}
    {mapped : Except QueryError (List Equality)} {own : Except QueryError (List Term)}
    {on : List Equality × List Term}
    (hmapped : ∀ es, mapped = .ok es → ∀ site ∈ es.flatMap (Equality.sites chain), site.Explained)
    (hown : ∀ ts, own = .ok ts → ∀ site ∈ Term.sitesAll chain ts, site.Explained)
    (h : conditionOf kind mapped own = .ok on) :
    (∀ site ∈ on.1.flatMap (Equality.sites chain), site.Explained) ∧
      ∀ site ∈ Term.sitesAll chain on.2, site.Explained := by
  unfold conditionOf at h
  split at h
  · cases h
    exact ⟨explained_nil, explained_nil⟩
  · obtain ⟨es, hes, h⟩ := bind_eq_ok.mp h
    obtain ⟨ts, hts, h⟩ := bind_eq_ok.mp h
    rw [← pure_eq_ok.mp h]
    exact ⟨hmapped es hes, hown ts hts⟩

theorem Sql.JoinClause.sitesAll_append {level : Level} : (a b : List JoinClause) →
    JoinClause.sitesAll level chain (a ++ b) =
      JoinClause.sitesAll level chain a ++ JoinClause.sitesAll level chain b
  | [], _ => rfl
  | ⟨_, _, _, _⟩ :: rest, b => by
      rw [List.cons_append, JoinClause.sitesAll, JoinClause.sitesAll,
        Sql.JoinClause.sitesAll_append rest b]
      simp only [List.append_assoc]

/-- The row ids that reverse a table are those of its base. -/
theorem Sql.SortTerm.explained_reverseRowIds (hfits : Fits scope.namings chain)
    {occurrences : List Occurrence} {outer : List Level}
    (hnamed : NamedAmong occurrences outer scope.namings) {source : Option Source}
    (hproper : ∀ s, source = some s → s.Proper)
    (hsubset : (source.map Source.occurrences).getD [] ⊆ occurrences) :
    ∀ site ∈ SortTerm.sitesAll chain (SortTerm.reverseRowIds scope source), site.Explained := by
  unfold SortTerm.reverseRowIds
  split
  · rename_i id name label hroot
    -- The root of a proper tree is its base, whose id is among those that are named together.
    obtain ⟨s, rfl, hs⟩ := Option.map_eq_some_iff.mp hroot
    have hbase := List.mem_cons_self (a := s.base) (l := s.targets)
    have hleaf := (hproper s rfl).leaf s.base hbase
    rw [Source.root_eq_base hleaf] at hs
    have hmem : id ∈ occurrences.map (·.id) := by
      have hid := Source.id_mem hsubset hbase hleaf
      rw [hs] at hid
      exact hid
    generalize hscope : scope.namings = namings at hnamed
    obtain ⟨hchosen, _⟩ := hnamed
    obtain ⟨chosen, hlookup⟩ :=
      Option.isSome_iff_exists.mp ((Naming.mem_ids_of_lookup hchosen).mpr hmem)
    have hfind : scope.find? id = some (scope.name? id) := by
      rw [Scope.name?_of_lookup hscope hlookup]
      exact Scope.find?_of_lookup hscope hlookup
    rw [SortTerm.sitesAll, List.forall_mem_cons]
    refine ⟨⟨scope.namings, hfits, hfind⟩, ?_⟩
    exact explained_nil
  · exact explained_nil

end Single

/-! ## The walk -/

mutual

/-- **Every place in a resolved expression is explained**: by induction over it, where a subquery's
FROM clause comes in front of those around. -/
theorem Expr.sites_explained {scope : Scope} {chain : List Level}
    (hfits : Fits scope.namings chain) (negated : Bool) : (e : Expr) →
    (∀ p ∈ e.subqueries, p.Sound) → ∀ t, e.resolve scope negated = .ok t →
      ∀ site ∈ t.sites chain, site.Explained
  | .literal sql arguments, _, t, h => by
      rw [Expr.resolve] at h
      cases h
      rw [Term.sites_negatedIf, Term.sites]
      exact explained_nil
  | .value v, _, t, h => by
      rw [Expr.resolve] at h
      cases h
      rw [Term.sites_negatedIf, Term.sites]
      exact explained_nil
  | .column none name, _, t, h => by
      rw [Expr.resolve] at h
      cases h
      rw [Term.sites_negatedIf, Term.sites]
      exact explained_nil
  | .column (some source) name, _, t, h => by
      rw [Expr.resolve] at h
      obtain ⟨r, hr, h⟩ := bind_eq_ok.mp h
      rw [← pure_eq_ok.mp h, Term.sites_negatedIf, Term.sites, List.forall_mem_singleton]
      exact Reference.explained hfits hr
  | .collate e collation, hsound, t, h => by
      rw [Expr.resolve] at h
      obtain ⟨operand, hoperand, h⟩ := bind_eq_ok.mp h
      rw [← pure_eq_ok.mp h, Term.sites_negatedIf, Term.sites]
      rw [Expr.subqueries] at hsound
      exact Expr.sites_explained hfits false e hsound operand hoperand
  | .not e, hsound, t, h => by
      rw [Expr.resolve] at h
      rw [Expr.subqueries] at hsound
      -- No place of the tree stands for a negation.
      exact Expr.sites_explained hfits (!negated) e hsound t h
  | .equal lhs rhs, hsound, t, h => by
      rw [Expr.resolve] at h
      rw [Expr.subqueries, List.forall_mem_append] at hsound
      exact Term.explained_compared (Expr.sites_explained hfits false lhs hsound.1)
        (Expr.sites_explained hfits false rhs hsound.2) h
  | .notEqual lhs rhs, hsound, t, h => by
      rw [Expr.resolve] at h
      rw [Expr.subqueries, List.forall_mem_append] at hsound
      exact Term.explained_compared (Expr.sites_explained hfits false lhs hsound.1)
        (Expr.sites_explained hfits false rhs hsound.2) h
  | .is lhs rhs, hsound, t, h => by
      rw [Expr.resolve] at h
      rw [Expr.subqueries, List.forall_mem_append] at hsound
      exact Term.explained_compared (Expr.sites_explained hfits false lhs hsound.1)
        (Expr.sites_explained hfits false rhs hsound.2) h
  | .isNot lhs rhs, hsound, t, h => by
      rw [Expr.resolve] at h
      rw [Expr.subqueries, List.forall_mem_append] at hsound
      exact Term.explained_compared (Expr.sites_explained hfits false lhs hsound.1)
        (Expr.sites_explained hfits false rhs hsound.2) h
  | .prefixOp op e, hsound, t, h => by
      rw [Expr.resolve] at h
      obtain ⟨operand, hoperand, h⟩ := bind_eq_ok.mp h
      rw [← pure_eq_ok.mp h, Term.sites_negatedIf, Term.sites]
      rw [Expr.subqueries] at hsound
      exact Expr.sites_explained hfits false e hsound operand hoperand
  | .infixOp op lhs rhs, hsound, t, h => by
      rw [Expr.resolve] at h
      obtain ⟨left, hleft, h⟩ := bind_eq_ok.mp h
      obtain ⟨right, hright, h⟩ := bind_eq_ok.mp h
      rw [← pure_eq_ok.mp h, Term.sites_negatedIf, Term.sites, List.forall_mem_append]
      rw [Expr.subqueries, List.forall_mem_append] at hsound
      exact ⟨Expr.sites_explained hfits false lhs hsound.1 left hleft,
        Expr.sites_explained hfits false rhs hsound.2 right hright⟩
  | .and es, hsound, t, h => by
      rw [Expr.resolve] at h
      obtain ⟨terms, hterms, h⟩ := bind_eq_ok.mp h
      rw [← pure_eq_ok.mp h, Term.sites_negatedIf, Term.sites]
      rw [Expr.subqueries] at hsound
      exact Expr.sitesAll_explained hfits es hsound terms hterms
  | .or es, hsound, t, h => by
      rw [Expr.resolve] at h
      obtain ⟨terms, hterms, h⟩ := bind_eq_ok.mp h
      rw [← pure_eq_ok.mp h, Term.sites_negatedIf, Term.sites]
      rw [Expr.subqueries] at hsound
      exact Expr.sitesAll_explained hfits es hsound terms hterms
  | .inList e items, hsound, t, h => by
      rw [Expr.resolve] at h
      rw [Expr.subqueries, List.forall_mem_append] at hsound
      split at h
      · -- A test for one of no values is a constant, and its operand is not written.
        cases h
        rw [Term.sites]
        exact explained_nil
      · obtain ⟨operand, hoperand, h⟩ := bind_eq_ok.mp h
        obtain ⟨terms, hterms, h⟩ := bind_eq_ok.mp h
        rw [← pure_eq_ok.mp h, Term.sites, List.forall_mem_append]
        exact ⟨Expr.sites_explained hfits false e hsound.1 operand hoperand,
          Expr.sitesAll_explained hfits items hsound.2 terms hterms⟩
  | .inQuery e query, hsound, t, h => by
      rw [Expr.resolve] at h
      rw [Expr.subqueries, List.forall_mem_append, List.forall_mem_singleton] at hsound
      obtain ⟨operand, hoperand, h⟩ := bind_eq_ok.mp h
      -- The subquery has a scope of its own, inside all the FROM clauses that the operand sees.
      obtain ⟨inner, hinner, h⟩ := bind_eq_ok.mp h
      obtain ⟨statement, hstatement, h⟩ := bind_eq_ok.mp h
      rw [← pure_eq_ok.mp h, Term.sites, List.forall_mem_append,
        Query.occurrences_of_resolve query statement hstatement]
      exact ⟨Expr.sites_explained hfits false e hsound.1 operand hoperand,
        Query.sites_explained (namedAmong_of_enter hfits hinner) query hsound.2
          (List.Subset.refl _) hsound.2.coherent statement hstatement⟩
  | .exists query, hsound, t, h => by
      rw [Expr.resolve] at h
      rw [Expr.subqueries, List.forall_mem_singleton] at hsound
      obtain ⟨inner, hinner, h⟩ := bind_eq_ok.mp h
      obtain ⟨statement, hstatement, h⟩ := bind_eq_ok.mp h
      rw [← pure_eq_ok.mp h, Term.sites, Query.occurrences_of_resolve query statement hstatement]
      exact Query.sites_explained (namedAmong_of_enter hfits hinner) query hsound
        (List.Subset.refl _) hsound.coherent statement hstatement
  | .between e low high, hsound, t, h => by
      rw [Expr.resolve] at h
      rw [Expr.subqueries, List.forall_mem_append, List.forall_mem_append] at hsound
      obtain ⟨operand, hoperand, h⟩ := bind_eq_ok.mp h
      obtain ⟨least, hleast, h⟩ := bind_eq_ok.mp h
      obtain ⟨greatest, hgreatest, h⟩ := bind_eq_ok.mp h
      rw [← pure_eq_ok.mp h, Term.sites_negatedIf, Term.sites, List.forall_mem_append,
        List.forall_mem_append]
      exact ⟨⟨Expr.sites_explained hfits false e hsound.1.1 operand hoperand,
        Expr.sites_explained hfits false low hsound.1.2 least hleast⟩,
        Expr.sites_explained hfits false high hsound.2 greatest hgreatest⟩
  | .call function es, hsound, t, h => by
      rw [Expr.resolve] at h
      obtain ⟨terms, hterms, h⟩ := bind_eq_ok.mp h
      rw [← pure_eq_ok.mp h, Term.sites_negatedIf, Term.sites]
      rw [Expr.subqueries] at hsound
      exact Expr.sitesAll_explained hfits es hsound terms hterms
  | .count counted, hsound, t, h => by
      rw [Expr.resolve] at h
      obtain ⟨counting, hcounting, h⟩ := bind_eq_ok.mp h
      rw [← pure_eq_ok.mp h, Term.sites_negatedIf]
      rw [Expr.subqueries] at hsound
      exact ResultColumn.sitesCounted_explained hfits counted hsound counting hcounting
  | .countDistinct e, hsound, t, h => by
      rw [Expr.resolve] at h
      obtain ⟨operand, hoperand, h⟩ := bind_eq_ok.mp h
      rw [← pure_eq_ok.mp h, Term.sites_negatedIf, Term.sites]
      rw [Expr.subqueries] at hsound
      exact Expr.sites_explained hfits false e hsound operand hoperand

theorem Expr.sitesAll_explained {scope : Scope} {chain : List Level}
    (hfits : Fits scope.namings chain) : (es : List Expr) →
    (∀ p ∈ Expr.subqueriesAll es, p.Sound) → ∀ ts, Expr.resolveAll scope es = .ok ts →
      ∀ site ∈ Term.sitesAll chain ts, site.Explained
  | [], _, ts, h => by
      rw [Expr.resolveAll] at h
      cases h
      exact explained_nil
  | e :: rest, hsound, ts, h => by
      rw [Expr.resolveAll] at h
      rw [Expr.subqueriesAll, List.forall_mem_append] at hsound
      obtain ⟨first, hfirst, h⟩ := bind_eq_ok.mp h
      obtain ⟨others, hothers, h⟩ := bind_eq_ok.mp h
      rw [← pure_eq_ok.mp h, Term.sitesAll, List.forall_mem_append]
      exact ⟨Expr.sites_explained hfits false e hsound.1 first hfirst,
        Expr.sitesAll_explained hfits rest hsound.2 others hothers⟩

theorem Expr.sitesOf_explained {scope : Scope} {chain : List Level}
    (hfits : Fits scope.namings chain) : (condition : Option Expr) →
    (∀ p ∈ condition.toList.flatMap Expr.subqueries, p.Sound) → ∀ t,
    Expr.resolveClause scope condition = .ok t → ∀ site ∈ Term.sitesOf chain t, site.Explained
  | none, _, t, h => by
      rw [Expr.resolveClause] at h
      cases h
      exact explained_nil
  | some e, hsound, t, h => by
      rw [Expr.resolveClause] at h
      obtain ⟨term, hterm, rfl⟩ := map_eq_ok.mp h
      rw [Option.toList_some, List.flatMap_singleton] at hsound
      exact Expr.sites_explained hfits false e hsound term hterm

theorem ResultColumn.sitesCounted_explained {scope : Scope} {chain : List Level}
    (hfits : Fits scope.namings chain) : (column : ResultColumn) →
    (∀ p ∈ column.subqueries, p.Sound) → ∀ t, column.resolveCounted scope = .ok t →
      ∀ site ∈ t.sites chain, site.Explained
  | .star source, _, t, h => by
      rw [ResultColumn.resolveCounted] at h
      obtain ⟨_, _, h⟩ := bind_eq_ok.mp h
      rw [← pure_eq_ok.mp h, Term.sites]
      -- A counted star names no column.
      exact explained_nil
  | .expr e, hsound, t, h => by
      rw [ResultColumn.resolveCounted] at h
      obtain ⟨operand, hoperand, h⟩ := bind_eq_ok.mp h
      rw [← pure_eq_ok.mp h, Term.sites]
      rw [ResultColumn.subqueries] at hsound
      exact Expr.sites_explained hfits false e hsound operand hoperand
  | .aliased e name, hsound, t, h => by
      rw [ResultColumn.resolveCounted] at h
      obtain ⟨operand, hoperand, h⟩ := bind_eq_ok.mp h
      rw [← pure_eq_ok.mp h, Term.sites]
      rw [ResultColumn.subqueries] at hsound
      exact Expr.sites_explained hfits false e hsound operand hoperand

theorem ResultColumn.sites_explained {scope : Scope} {chain : List Level}
    (hfits : Fits scope.namings chain) : (column : ResultColumn) →
    (∀ p ∈ column.subqueries, p.Sound) → ∀ item, column.resolve scope = .ok item →
      ∀ site ∈ item.sites chain, site.Explained
  | .star source, _, item, h => by
      rw [ResultColumn.resolve] at h
      obtain ⟨r, hr, h⟩ := bind_eq_ok.mp h
      rw [← pure_eq_ok.mp h, Item.sites, List.forall_mem_singleton]
      exact Reference.explained hfits hr
  | .expr e, hsound, item, h => by
      rw [ResultColumn.resolve] at h
      obtain ⟨term, hterm, h⟩ := bind_eq_ok.mp h
      rw [← pure_eq_ok.mp h, Item.sites]
      rw [ResultColumn.subqueries] at hsound
      exact Expr.sites_explained hfits false e hsound term hterm
  | .aliased e name, hsound, item, h => by
      rw [ResultColumn.resolve] at h
      obtain ⟨term, hterm, h⟩ := bind_eq_ok.mp h
      rw [← pure_eq_ok.mp h, Item.sites]
      rw [ResultColumn.subqueries] at hsound
      exact Expr.sites_explained hfits false e hsound term hterm

theorem ResultColumn.sitesAll_explained {scope : Scope} {chain : List Level}
    (hfits : Fits scope.namings chain) : (columns : List ResultColumn) →
    (∀ p ∈ columns.flatMap ResultColumn.subqueries, p.Sound) → ∀ items,
    ResultColumn.resolveAll scope columns = .ok items →
      ∀ site ∈ Item.sitesAll chain items, site.Explained
  | [], _, items, h => by
      rw [ResultColumn.resolveAll] at h
      cases h
      exact explained_nil
  | column :: rest, hsound, items, h => by
      rw [ResultColumn.resolveAll] at h
      rw [List.flatMap_cons, List.forall_mem_append] at hsound
      obtain ⟨first, hfirst, h⟩ := bind_eq_ok.mp h
      obtain ⟨others, hothers, h⟩ := bind_eq_ok.mp h
      rw [← pure_eq_ok.mp h, Item.sitesAll, List.forall_mem_append]
      exact ⟨ResultColumn.sites_explained hfits column hsound.1 first hfirst,
        ResultColumn.sitesAll_explained hfits rest hsound.2 others hothers⟩

theorem OrderingTerm.sitesAll_explained {scope : Scope} {chain : List Level}
    (hfits : Fits scope.namings chain) (reversed : Bool) : (terms : List OrderingTerm) →
    (∀ p ∈ terms.flatMap fun term => term.expr.subqueries, p.Sound) → ∀ ts,
    OrderingTerm.resolveAll scope reversed terms = .ok ts →
      ∀ site ∈ SortTerm.sitesAll chain ts, site.Explained
  | [], _, ts, h => by
      rw [OrderingTerm.resolveAll] at h
      cases h
      exact explained_nil
  | ⟨e, direction⟩ :: rest, hsound, ts, h => by
      rw [OrderingTerm.resolveAll] at h
      rw [List.flatMap_cons, List.forall_mem_append] at hsound
      obtain ⟨first, hfirst, h⟩ := bind_eq_ok.mp h
      obtain ⟨others, hothers, h⟩ := bind_eq_ok.mp h
      rw [← pure_eq_ok.mp h, SortTerm.sitesAll, List.forall_mem_append]
      exact ⟨Expr.sites_explained hfits false e hsound.1 first hfirst,
        OrderingTerm.sitesAll_explained hfits reversed rest hsound.2 others hothers⟩

theorem Query.sites_explained {scope : Scope} {occurrences : List Occurrence}
    {outer : List Level} (hnamed : NamedAmong occurrences outer scope.namings) : (q : Query) →
    q.Sound → q.occurrences ⊆ occurrences → Coherent q.pinned occurrences → ∀ s,
    q.resolve scope = .ok s → ∀ site ∈ s.sites occurrences outer, site.Explained
  | ⟨selection, _, source, filter, groupBy, having, orderings, reversed, _⟩, hsound, hsubset,
      hcoherent, ⟨_, items, added, clause, rows, groups, groupRows, order, _⟩, h => by
      -- The queries in its own expressions are sound, and so are those in its FROM clause.
      have hown := fun p hp => hsound.nested (p := p) (Or.inl hp)
      have hsource := fun p hp => hsound.nested (p := p) (Or.inr hp)
      simp only [Query.subqueries, List.forall_mem_append] at hown
      obtain ⟨⟨⟨⟨hselection, hfilter⟩, hgroupBy⟩, hhaving⟩, horderings⟩ := hown
      rw [Query.occurrences_eq] at hsubset
      rw [Query.pinned_eq] at hcoherent
      obtain ⟨_, hitems, hclause, hrows, hgroups, hgroupRows, ⟨terms, hterms, horder⟩, _⟩ :=
        Query.resolve_eq_ok.mp h
      -- From here on, the statement's own FROM clause is around everything in it.
      obtain ⟨hfits, hwell⟩ := Source.fits_of_resolveClause hnamed
        (fun s hs => hsound.proper hs) hsubset hcoherent hclause
      have hlists := Item.explained_itemsOf
        (ResultColumn.sitesAll_explained hfits selection hselection)
        (Source.sitesColumns_explained hfits source fun s hs p hp => hsource p ⟨s, hs, hp⟩) hitems
      rw [Statement.sites]
      simp only [List.forall_mem_append, List.forall_mem_cons]
      refine ⟨⟨⟨⟨⟨⟨⟨hwell, hlists.1⟩, hlists.2⟩, ?_⟩, ?_⟩, ?_⟩, ?_⟩, ?_⟩
      · exact Source.sitesOf_explained hfits source (fun s hs p hp => hsource p ⟨s, hs, hp⟩)
          hsubset hcoherent clause hclause
      · exact Expr.sitesOf_explained hfits filter hfilter rows hrows
      · rw [← Expr.subqueriesAll_eq] at hgroupBy
        exact Expr.sitesAll_explained hfits groupBy hgroupBy groups hgroups
      · exact Expr.sitesOf_explained hfits having hhaving groupRows hgroupRows
      · rw [show order = _ from horder]
        split
        · exact SortTerm.explained_reverseRowIds hfits hnamed (fun s hs => hsound.proper hs) hsubset
        · exact OrderingTerm.sitesAll_explained hfits reversed orderings horderings terms hterms

theorem Source.sitesColumns_explained {scope : Scope} {chain : List Level}
    (hfits : Fits scope.namings chain) : (source : Option Source) →
    (∀ s, source = some s → ∀ p, s.Nests p → p.Sound) → ∀ items,
    Source.resolveColumns scope source = .ok items →
      ∀ site ∈ Item.sitesAll chain items, site.Explained
  | none, _, items, h => by
      cases h
      exact explained_nil
  | some (.table _ _ _), _, items, h => by
      cases h
      exact explained_nil
  | some (.subquery _ _ _), _, items, h => by
      cases h
      exact explained_nil
  | some (.joinTree id left joins), hsound, items, h =>
      Join.sitesColumns_explained hfits joins
        (fun p hp => hsound _ rfl p (by rw [Source.Nests]; exact Or.inr hp)) items h

theorem Source.sitesOf_explained {scope : Scope} {level : Level} {outer : List Level}
    (hfits : Fits scope.namings (level :: outer)) : (source : Option Source) →
    (∀ s, source = some s → ∀ p, s.Nests p → p.Sound) →
    (source.map Source.occurrences).getD [] ⊆ level.occurrences →
    Coherent ((source.map Source.pinned).getD []) level.occurrences → ∀ clause,
    Source.resolveClause scope source = .ok clause →
      ∀ site ∈ From.sitesOf level outer clause, site.Explained
  | none, _, _, _, clause, h => by
      cases h
      exact explained_nil
  | some s, hsound, hsubset, hcoherent, clause, h => by
      obtain ⟨t, ht, rfl⟩ := map_eq_ok.mp h
      exact Source.sites_explained hfits s (hsound s rfl) hsubset hcoherent t ht

theorem Join.sitesColumns_explained {scope : Scope} {chain : List Level}
    (hfits : Fits scope.namings chain) : (joins : List Join) →
    (∀ p, Join.Nests p joins → p.Sound) → ∀ items, Join.resolveColumns scope joins = .ok items →
      ∀ site ∈ Item.sitesAll chain items, site.Explained
  | [], _, items, h => by
      rw [Join.resolveColumns] at h
      cases h
      exact explained_nil
  | ⟨included, _, ⟨_, target, _, condition, selection, joins⟩⟩ :: rest, hsound, items, h => by
      simp only [Join.Nests, or_imp, forall_and, forall_exists_index] at hsound
      obtain ⟨_, _, hselection, hjoins, hrest⟩ := hsound
      obtain ⟨own, nested, others, hown, hnested, hothers, rfl⟩ := Join.of_resolveColumns_cons h
      simp only [Item.sitesAll_append, List.forall_mem_append]
      refine ⟨⟨?_, Join.sitesColumns_explained hfits joins hjoins nested hnested⟩,
        Join.sitesColumns_explained hfits rest hrest others hothers⟩
      cases included
      · -- A relation that is only joined adds no columns of its own.
        cases hown
        exact explained_nil
      · exact ResultColumn.sitesAll_explained hfits (selection target.id)
          (fun p hp => hselection p target.id hp) own hown

theorem Source.sites_explained {scope : Scope} {level : Level} {outer : List Level}
    (hfits : Fits scope.namings (level :: outer)) : (s : Source) →
    (∀ p, s.Nests p → p.Sound) → s.occurrences ⊆ level.occurrences →
    Coherent s.pinned level.occurrences → ∀ t, s.resolve scope = .ok t →
      ∀ site ∈ t.sites level outer, site.Explained
  | .table _ _ _, _, _, _, t, h => by
      rw [Source.resolve] at h
      cases h
      exact explained_nil
  | .subquery id query _, hsound, hsubset, hcoherent, t, h => by
      rw [Source.resolve] at h
      obtain ⟨statement, hstatement, h⟩ := bind_eq_ok.mp h
      rw [← pure_eq_ok.mp h, From.sites]
      rw [Source.occurrences] at hsubset
      rw [Source.pinned] at hcoherent
      -- The scope stays as it is, but the FROM clause around is not visible from inside.
      exact Query.sites_explained (namedAmong_of_fits hfits) query
        (hsound query (by rw [Source.Nests])) (List.subset_of_cons_subset hsubset) hcoherent
        statement hstatement
  | .joinTree id left joins, hsound, hsubset, hcoherent, t, h => by
      simp only [Source.Nests, or_imp, forall_and] at hsound
      rw [Source.occurrences, List.append_subset] at hsubset
      rw [Source.pinned, coherent_append] at hcoherent
      rw [Source.resolve] at h
      obtain ⟨source, hleft, h⟩ := bind_eq_ok.mp h
      obtain ⟨clauses, hclauses, h⟩ := bind_eq_ok.mp h
      rw [← pure_eq_ok.mp h, From.sites, List.forall_mem_append]
      exact ⟨Source.sites_explained hfits left hsound.1 hsubset.1 hcoherent.1 source hleft,
        Join.sitesAll_explained hfits joins hsound.2 hsubset.2 hcoherent.2 _ _ clauses hclauses⟩

theorem Join.sitesAll_explained {scope : Scope} {level : Level} {outer : List Level}
    (hfits : Fits scope.namings (level :: outer)) : (joins : List Join) →
    (∀ p, Join.Nests p joins → p.Sound) → Join.occurrences joins ⊆ level.occurrences →
    Coherent (Join.pinned joins) level.occurrences → (left : Clauses.Anchor) →
    (afterOptional : Bool) → ∀ clauses,
    Join.resolveAll scope left afterOptional joins = .ok clauses →
      ∀ site ∈ JoinClause.sitesAll level outer clauses, site.Explained
  | [], _, _, _, _, _, clauses, h => by
      rw [Join.resolveAll] at h
      cases h
      exact explained_nil
  | ⟨_, kind, ⟨_, target, _, condition, selection, joins⟩⟩ :: rest, hsound, hsubset, hcoherent,
      left, _, clauses, h => by
      simp only [Join.Nests, or_imp, forall_and, forall_exists_index] at hsound
      obtain ⟨htarget, hcondition, _, hjoins, hrest⟩ := hsound
      rw [Join.occurrences, List.append_subset, List.append_subset] at hsubset
      rw [Join.pinned, coherent_append, List.cons_append, coherent_cons, coherent_append]
        at hcoherent
      obtain ⟨source, on, nested, others, hsource, hon, hnested, hothers, rfl⟩ :=
        Join.of_resolveAll_cons h
      -- The condition was built for these two ids, and so were the queries in it.
      have hterms := Term.explained_conditionOf
        (Equality.explained hfits _)
        (Expr.sitesAll_explained hfits (condition left.id target.id)
          (by rw [Expr.subqueriesAll_eq]; exact fun p hp => hcondition p left.id target.id hp)) hon
      rw [List.cons_append, JoinClause.sitesAll, JoinClause.sitesAll_append]
      simp only [List.forall_mem_append]
      exact ⟨⟨⟨Source.sites_explained hfits target htarget hsubset.1.1 hcoherent.1.2.1 source
        hsource, hterms.1⟩, hterms.2⟩,
        Join.sitesAll_explained hfits joins hjoins hsubset.1.2 hcoherent.1.2.2 _ _ nested hnested,
        Join.sitesAll_explained hfits rest hrest hsubset.2 hcoherent.2 _ _ others hothers⟩

end

/-- **Every site of a statement that stands alone is explained.** -/
theorem Query.allSites_explained {schema : Schema} {q : Query} (hsound : q.Sound) {s : Statement}
    (h : q.statement schema = .ok s) : ∀ site ∈ s.allSites, site.Explained := by
  unfold Query.statement at h
  obtain ⟨scope, hscope, h⟩ := bind_eq_ok.mp h
  rw [Statement.allSites, Query.occurrences_of_resolve q s h]
  exact Query.sites_explained (namedAmong_of_enter .outermost hscope) q hsound
    (List.Subset.refl _) hsound.coherent s h

/-! ## Qualifiers -/

/-- A qualifier is the name that its source is introduced by, if no statement in between names the
source again. -/
theorem Fits.qualifier_eq {level : Level} {outer : List Level} {leaf : Leaf}
    (hleaf : leaf ∈ level.leaves) {qualifier : Option String} : (inner : List Level) →
    (namings : List Naming) → Fits namings (inner ++ level :: outer) →
    (namings.findSome? fun naming => naming.lookup leaf.id) = some qualifier →
    (∀ l ∈ inner, leaf.id ∉ l.occurrences.map (·.id)) → qualifier = leaf.name
  | [], _, hfits, hname, _ => by
      rw [List.nil_append] at hfits
      cases hfits with
      | inside _ hintroduced _ =>
          rw [List.findSome?_cons, hintroduced leaf hleaf] at hname
          exact (Option.some.inj hname).symm
  | l :: inner, _, hfits, hname, hinner => by
      obtain ⟨hl, hinner⟩ := List.forall_mem_cons.mp hinner
      rw [List.cons_append] at hfits
      cases hfits with
      | @inside naming namings _ _ hchosen _ hrest =>
          -- The statement in between does not name the source, so the search goes on outside.
          have hnone : naming.lookup leaf.id = none := by
            rw [← Option.not_isSome_iff_eq_none]
            exact fun hsome => hl ((Naming.mem_ids_of_lookup hchosen).mp hsome)
          rw [List.findSome?_cons, hnone] at hname
          exact Fits.qualifier_eq hleaf inner namings hrest hname hinner

end RelationalQuery
