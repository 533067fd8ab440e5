/-
  RelationalQuery.Proofs.Execution.Enclosure — a query inside an unnamed source reads the same.

  When a query becomes the source of another, its sources are named together with that source. An
  unnamed source asks for no name, so it takes none from the others, and nobody outside sees it.
  What resolved before resolves to the same tree: look-ups that succeed give the same names, and
  nested statements choose theirs against the same visible names.

  Main definitions:
    * `Kept`: the second computation gives what the first gives.
    * `Scope.Extends`: a scope that finds what another finds, under the same names.

  Main statements:
    * `Query.resolve_kept`: the walk over a query.
    * `Scope.enter_unnamed`: the scope behind an unnamed source extends the scope without it.
-/

import RelationalQuery.Proofs.Naming.Choice
import RelationalQuery.Proofs.Statement.Scoping

namespace RelationalQuery

open Sql

/-! ## Steps that still succeed -/

/-- What the first computation gives, the second gives too. -/
def Kept {α : Type} (x y : Except QueryError α) : Prop := ∀ a, x = .ok a → y = .ok a

namespace Kept

variable {α β : Type} {x y : Except QueryError α}

theorem refl (x : Except QueryError α) : Kept x x := fun _ h => h

/-- Steps that still succeed can be chained. -/
theorem bind {k l : α → Except QueryError β} (hx : Kept x y) (hk : ∀ a, Kept (k a) (l a)) :
    Kept (x >>= k) (y >>= l) := by
  intro b h
  obtain ⟨a, ha, hb⟩ := bind_eq_ok.mp h
  exact bind_eq_ok.mpr ⟨a, hx a ha, hk a b hb⟩

/-- A result that is still given can be mapped. -/
theorem map {f : α → β} (hx : Kept x y) : Kept (f <$> x) (f <$> y) := by
  intro b h
  obtain ⟨a, ha, rfl⟩ := map_eq_ok.mp h
  rw [hx a ha]
  rfl

end Kept

/-! ## Scopes -/

namespace Scope

/-- The scope finds what the other finds, and shows the same names. -/
structure Extends (inner outer : Scope) : Prop where
  schema_eq : inner.schema = outer.schema
  visible_eq : inner.visible = outer.visible
  found : ∀ id name, inner.find? id = some name → outer.find? id = some name
  name_eq : ∀ id, inner.name? id = outer.name? id

variable {scope other : Scope}

/-- A scope that extends another finds a source under the name that the other finds. -/
theorem Extends.name_kept (h : scope.Extends other) (id : SourceId) (column : String) :
    Kept (scope.name id column) (other.name id column) := by
  intro name hname
  unfold Scope.name at hname ⊢
  cases hfind : scope.find? id with
  | none =>
      rw [hfind] at hname
      cases hname
  | some found =>
      rw [h.found id found hfind]
      rwa [hfind] at hname

/-- The same names in front of both scopes. -/
theorem Extends.push (h : scope.Extends other) (naming : Naming) :
    ({ scope with namings := naming :: scope.namings } : Scope).Extends
      { other with namings := naming :: other.namings } where
  schema_eq := h.schema_eq
  visible_eq := by
    have hvisible := h.visible_eq
    unfold Scope.visible at hvisible ⊢
    rw [List.flatMap_cons, List.flatMap_cons, List.map_append, List.map_append, hvisible]
  found := by
    intro id name hfind
    unfold Scope.find? at hfind ⊢
    rw [List.findSome?_cons] at hfind ⊢
    -- The names in front decide first, and are the same on both sides.
    cases hlookup : naming.lookup id with
    | some own =>
        rw [hlookup] at hfind
        exact hfind
    | none =>
        rw [hlookup] at hfind
        exact h.found id name hfind
  name_eq := by
    intro id
    have hname := h.name_eq id
    unfold Scope.name? Scope.find? at hname ⊢
    rw [List.findSome?_cons, List.findSome?_cons]
    cases hlookup : naming.lookup id with
    | some own => rfl
    | none => exact hname

/-- A nested statement is entered with the same names. -/
theorem Extends.enter_kept (h : scope.Extends other) {os : List Occurrence} {β : Type}
    {k : Scope → Except QueryError β}
    (hk : ∀ inner outer : Scope, inner.Extends outer → Kept (k inner) (k outer)) :
    Kept (scope.enter os >>= k) (other.enter os >>= k) := by
  intro b hb
  obtain ⟨inner, hinner, hb⟩ := bind_eq_ok.mp hb
  obtain ⟨naming, hnaming, hinner⟩ := bind_eq_ok.mp hinner
  cases pure_eq_ok.mp hinner
  refine bind_eq_ok.mpr ⟨{ other with namings := naming :: other.namings }, ?_,
    hk _ _ (h.push naming) b hb⟩
  exact bind_eq_ok.mpr ⟨naming, by rw [← h.visible_eq]; exact hnaming, rfl⟩

end Scope

/-! ## The walk over a query -/

section Walk

variable {scope other : Scope}

/-- A comparison still resolves if its operands do, with a NULL constant on either side too. -/
theorem Sql.Term.compared_kept {how : Comparison} {negated : Bool} {lhs rhs : Expr}
    {left left' right right' : Except QueryError Term} (hleft : Kept left left')
    (hright : Kept right right') :
    Kept (Term.compared how negated lhs rhs left right)
      (Term.compared how negated lhs rhs left' right') := by
  unfold Term.compared
  split
  · exact hleft.map
  · split
    · exact hright.map
    · exact hleft.bind fun _ => hright.bind fun _ => .refl _

/-- A reference still resolves, to the same name. -/
theorem Sql.Reference.resolve_kept (h : scope.Extends other) (source : SourceId)
    (column : String) :
    Kept (Reference.resolve scope source column) (Reference.resolve other source column) :=
  (h.name_kept source column).bind fun _ => .refl _

/-- The columns of a mapping still resolve, to the same equalities. -/
theorem Sql.Equality.resolveAll_kept (h : scope.Extends other) (left target : SourceId) :
    (mapping : List (String × String)) →
    Kept (Equality.resolveAll scope left target mapping)
      (Equality.resolveAll other left target mapping)
  | [] => .refl _
  | (leftColumn, targetColumn) :: rest =>
      (Reference.resolve_kept h target targetColumn).bind fun _ =>
        (Reference.resolve_kept h left leftColumn).bind fun _ =>
          (Equality.resolveAll_kept h left target rest).bind fun _ => .refl _

/-- The condition of a join still resolves if its mapping and its own terms do. -/
theorem Sql.conditionOf_kept {kind : JoinKind} {mapped mapped' : Except QueryError (List Equality)}
    {own own' : Except QueryError (List Term)} (hmapped : Kept mapped mapped')
    (hown : Kept own own') :
    Kept (conditionOf kind mapped own) (conditionOf kind mapped' own') := by
  cases kind with
  | cross => exact .refl _
  | inner => exact hmapped.bind fun _ => hown.bind fun _ => .refl _
  | left => exact hmapped.bind fun _ => hown.bind fun _ => .refl _

/-- The items of a select list still resolve if its own and the added ones do. -/
theorem Sql.itemsOf_kept {whole : Bool} {own own' added added' : Except QueryError (List Item)}
    (hown : Kept own own') (hadded : Kept added added') :
    Kept (itemsOf whole own added) (itemsOf whole own' added') := by
  unfold itemsOf
  split
  · exact .refl _
  · exact hown.bind fun _ => hadded.bind fun _ => .refl _

/-- The row ids that a reversed ordering falls back on are the same. -/
theorem Sql.SortTerm.reverseRowIds_eq (h : scope.Extends other) (source : Option Source) :
    SortTerm.reverseRowIds scope source = SortTerm.reverseRowIds other source := by
  unfold SortTerm.reverseRowIds
  split
  · rw [h.name_eq]
  · rfl

mutual

/-- An expression still resolves, to the same term: by induction over it, together with all that can
stand inside it. -/
theorem Expr.resolve_kept {scope other : Scope} (h : scope.Extends other) (negated : Bool) :
    (e : Expr) →
    Kept (e.resolve scope negated) (e.resolve other negated)
  | .literal _ _ | .value _ | .column none _ => by
      simp only [Expr.resolve]
      exact .refl _
  | .column (some source) name => by
      simp only [Expr.resolve]
      exact (Reference.resolve_kept h source name).bind fun _ => .refl _
  | .collate e _ | .prefixOp _ e | .countDistinct e => by
      simp only [Expr.resolve]
      exact (Expr.resolve_kept h false e).bind fun _ => .refl _
  | .not e => by
      simp only [Expr.resolve]
      exact Expr.resolve_kept h (!negated) e
  | .equal lhs rhs | .notEqual lhs rhs | .is lhs rhs | .isNot lhs rhs => by
      simp only [Expr.resolve]
      exact Term.compared_kept (Expr.resolve_kept h false lhs) (Expr.resolve_kept h false rhs)
  | .infixOp _ lhs rhs => by
      simp only [Expr.resolve]
      exact (Expr.resolve_kept h false lhs).bind fun _ =>
        (Expr.resolve_kept h false rhs).bind fun _ => .refl _
  | .and terms | .or terms | .call _ terms => by
      simp only [Expr.resolve]
      exact (Expr.resolveAll_kept h terms).bind fun _ => .refl _
  | .inList e items => by
      simp only [Expr.resolve]
      split
      · exact .refl _
      · exact (Expr.resolve_kept h false e).bind fun _ =>
          (Expr.resolveAll_kept h items).bind fun _ => .refl _
  -- A subquery chooses its names against the visible ones, which are the same in both scopes.
  | .inQuery e query => by
      simp only [Expr.resolve]
      exact (Expr.resolve_kept h false e).bind fun _ =>
        h.enter_kept fun _ _ hinner => (Query.resolve_kept hinner query).bind fun _ => .refl _
  | .exists query => by
      simp only [Expr.resolve]
      exact h.enter_kept fun _ _ hinner => (Query.resolve_kept hinner query).bind fun _ => .refl _
  | .between e low high => by
      simp only [Expr.resolve]
      exact (Expr.resolve_kept h false e).bind fun _ =>
        (Expr.resolve_kept h false low).bind fun _ =>
          (Expr.resolve_kept h false high).bind fun _ => .refl _
  | .count counted => by
      simp only [Expr.resolve]
      exact (ResultColumn.resolveCounted_kept h counted).bind fun _ => .refl _

/-- Expressions in a list still resolve. -/
theorem Expr.resolveAll_kept {scope other : Scope} (h : scope.Extends other) : (es : List Expr) →
    Kept (Expr.resolveAll scope es) (Expr.resolveAll other es)
  | [] => by
      simp only [Expr.resolveAll]
      exact .refl _
  | e :: rest => by
      simp only [Expr.resolveAll]
      exact (Expr.resolve_kept h false e).bind fun _ =>
        (Expr.resolveAll_kept h rest).bind fun _ => .refl _

/-- The condition of a clause still resolves. -/
theorem Expr.resolveClause_kept {scope other : Scope} (h : scope.Extends other) :
    (e : Option Expr) →
    Kept (Expr.resolveClause scope e) (Expr.resolveClause other e)
  | some condition => by
      simp only [Expr.resolveClause]
      exact (Expr.resolve_kept h false condition).map
  | none => by
      simp only [Expr.resolveClause]
      exact .refl _

/-- A counted column still resolves. -/
theorem ResultColumn.resolveCounted_kept {scope other : Scope} (h : scope.Extends other) :
    (column : ResultColumn) →
    Kept (column.resolveCounted scope) (column.resolveCounted other)
  | .star source => by
      simp only [ResultColumn.resolveCounted]
      exact (h.name_kept source "*").bind fun _ => .refl _
  | .expr e | .aliased e _ => by
      simp only [ResultColumn.resolveCounted]
      exact (Expr.resolve_kept h false e).bind fun _ => .refl _

/-- A result column still resolves. -/
theorem ResultColumn.resolve_kept {scope other : Scope} (h : scope.Extends other) :
    (column : ResultColumn) →
    Kept (column.resolve scope) (column.resolve other)
  | .star source => by
      simp only [ResultColumn.resolve]
      exact (Reference.resolve_kept h source "*").bind fun _ => .refl _
  | .expr e | .aliased e _ => by
      simp only [ResultColumn.resolve]
      exact (Expr.resolve_kept h false e).bind fun _ => .refl _

/-- The columns of a select list still resolve. -/
theorem ResultColumn.resolveAll_kept {scope other : Scope} (h : scope.Extends other) :
    (columns : List ResultColumn) →
    Kept (ResultColumn.resolveAll scope columns) (ResultColumn.resolveAll other columns)
  | [] => by
      simp only [ResultColumn.resolveAll]
      exact .refl _
  | column :: rest => by
      simp only [ResultColumn.resolveAll]
      exact (ResultColumn.resolve_kept h column).bind fun _ =>
        (ResultColumn.resolveAll_kept h rest).bind fun _ => .refl _

/-- The terms of an ordering still resolve, reversed or not. -/
theorem OrderingTerm.resolveAll_kept {scope other : Scope} (h : scope.Extends other)
    (reversed : Bool) :
    (terms : List OrderingTerm) →
    Kept (OrderingTerm.resolveAll scope reversed terms)
      (OrderingTerm.resolveAll other reversed terms)
  | [] => by
      simp only [OrderingTerm.resolveAll]
      exact .refl _
  | ⟨e, _⟩ :: rest => by
      simp only [OrderingTerm.resolveAll]
      exact (Expr.resolve_kept h false e).bind fun _ =>
        (OrderingTerm.resolveAll_kept h reversed rest).bind fun _ => .refl _

/-- **A query resolves to the same tree in a scope that extends its own.** -/
theorem Query.resolve_kept {scope other : Scope} (h : scope.Extends other) : (q : Query) →
    Kept (q.resolve scope) (q.resolve other)
  | ⟨selection, distinct, source, filter, groupBy, having, orderings, reversed, limit⟩ => by
      simp only [Query.resolve, SortTerm.reverseRowIds_eq h]
      exact (itemsOf_kept (ResultColumn.resolveAll_kept h selection)
          (Source.resolveColumns_kept h source)).bind fun _ =>
        (Source.resolveClause_kept h source).bind fun _ =>
          (Expr.resolveClause_kept h filter).bind fun _ =>
            (Expr.resolveAll_kept h groupBy).bind fun _ =>
              (Expr.resolveClause_kept h having).bind fun _ =>
                (OrderingTerm.resolveAll_kept h reversed orderings).bind fun _ => .refl _

/-- The columns that joins add to a select list still resolve. -/
theorem Source.resolveColumns_kept {scope other : Scope} (h : scope.Extends other) :
    (source : Option Source) →
    Kept (Source.resolveColumns scope source) (Source.resolveColumns other source)
  | some (.joinTree _ _ joins) => by
      simp only [Source.resolveColumns]
      exact Join.resolveColumns_kept h joins
  | some (.table ..) | some (.subquery ..) | none => by
      simp only [Source.resolveColumns]
      exact .refl _

/-- A FROM clause still resolves. -/
theorem Source.resolveClause_kept {scope other : Scope} (h : scope.Extends other) :
    (source : Option Source) →
    Kept (Source.resolveClause scope source) (Source.resolveClause other source)
  | some source => by
      simp only [Source.resolveClause]
      exact (Source.resolve_kept h source).map
  | none => by
      simp only [Source.resolveClause]
      exact .refl _

/-- The columns that joins and the joins below them add still resolve. -/
theorem Join.resolveColumns_kept {scope other : Scope} (h : scope.Extends other) :
    (joins : List Join) →
    Kept (Join.resolveColumns scope joins) (Join.resolveColumns other joins)
  | [] => by
      simp only [Join.resolveColumns]
      exact .refl _
  | ⟨included, _, ⟨_, target, _, _, selection, joins⟩⟩ :: rest => by
      simp only [Join.resolveColumns]
      -- Whether a relation is included does not depend on the scope.
      have hown : Kept
          (if included then ResultColumn.resolveAll scope (selection target.id) else .ok [])
          (if included then ResultColumn.resolveAll other (selection target.id) else .ok []) := by
        split
        · exact ResultColumn.resolveAll_kept h (selection target.id)
        · exact .refl _
      exact hown.bind fun _ => (Join.resolveColumns_kept h joins).bind fun _ =>
        (Join.resolveColumns_kept h rest).bind fun _ => .refl _

/-- A source still resolves, and a query inside it chooses the same names. -/
theorem Source.resolve_kept {scope other : Scope} (h : scope.Extends other) : (s : Source) →
    Kept (s.resolve scope) (s.resolve other)
  | .table id _ _ => by
      simp only [Source.resolve, h.name_eq]
      exact .refl _
  | .subquery id query _ => by
      simp only [Source.resolve, h.name_eq]
      exact (Query.resolve_kept h query).bind fun _ => .refl _
  | .joinTree _ left joins => by
      simp only [Source.resolve]
      exact (Source.resolve_kept h left).bind fun _ =>
        (Join.resolveAll_kept h _ _ joins).bind fun _ => .refl _

/-- The joins on a source still resolve, with the joins below them. -/
theorem Join.resolveAll_kept {scope other : Scope} (h : scope.Extends other) (left : Clauses.Anchor)
    (afterOptional : Bool) : (joins : List Join) →
    Kept (Join.resolveAll scope left afterOptional joins)
      (Join.resolveAll other left afterOptional joins)
  | [] => by
      simp only [Join.resolveAll]
      exact .refl _
  | ⟨_, kind, ⟨_, target, mapping, condition, _, joins⟩⟩ :: rest => by
      simp only [Join.resolveAll, h.schema_eq]
      exact (Kept.refl _).bind fun _ => (Kept.refl _).bind fun _ =>
        (Source.resolve_kept h target).bind fun _ =>
          (conditionOf_kept (Equality.resolveAll_kept h left.id target.id mapping)
              (Expr.resolveAll_kept h (condition left.id target.id))).bind fun _ =>
            (Join.resolveAll_kept h _ _ joins).bind fun _ =>
              (Join.resolveAll_kept h left afterOptional rest).bind fun _ => .refl _

end

end Walk

/-! ## An unnamed source in front -/

namespace Naming

variable {outer : List String} {os : List Occurrence} {o : Occurrence}

/-- An occurrence whose id is new to the others stays in front of them. -/
theorem distinct_cons_of_notMem (hid : o.id ∉ os.map (·.id)) :
    distinct (o :: os) = o :: distinct os := by
  rw [distinct]
  congr 1
  refine List.filter_eq_self.mpr fun p hp => decide_eq_true fun heq => hid ?_
  rw [← heq]
  exact mem_ids_of_mem_distinct hp

/-- A source that asks for no name is in no group. -/
theorem group_cons_unnamed (hkey : o.key? = none) : group (o :: os) = group os := by
  funext key
  unfold group
  exact List.filter_cons_of_neg (by rw [hkey]; simp)

/-- An occurrence without a name asks for none, so it leaves the keys of the others. -/
theorem groupKeys_cons_unnamed (hkey : o.key? = none) : groupKeys (o :: os) = groupKeys os := by
  unfold groupKeys
  rw [List.filterMap_cons_none hkey]

/-- **A source that asks for no name leaves the names of the others as they are**, and the choice
fails as it did. -/
theorem resolve_cons_unnamed (hname : o.name = none) (hid : o.id ∉ os.map (·.id)) :
    resolve outer (o :: os) = (fun naming => (o.id, none) :: naming) <$> resolve outer os := by
  have hkey : o.key? = none := by rw [Occurrence.key?, hname]; rfl
  have hexplicit : checkExplicit (o :: distinct os) = checkExplicit (distinct os) := by
    funext key
    unfold checkExplicit explicitMembers
    rw [group_cons_unnamed hkey]
  have hrenamed : renamed outer (o :: distinct os) = renamed outer (distinct os) := by
    unfold renamed staysTaken keepsName explicitMembers derivedMembers
    rw [groupKeys_cons_unnamed hkey, group_cons_unnamed hkey]
  have hunchosen : (renamed outer (distinct os)).lookup o.id = none := by
    cases hlookup : (renamed outer (distinct os)).lookup o.id with
    | none => rfl
    | some name =>
        obtain ⟨p, hp, heq, _⟩ := mem_renamed_ids.mp
          (lookup_isSome.mp (Option.isSome_of_eq_some hlookup))
        refine absurd ?_ hid
        rw [← heq]
        exact mem_ids_of_mem_distinct hp
  have hassign : assign (renamed outer (o :: distinct os)) (o :: distinct os) =
      (o.id, none) :: assign (renamed outer (distinct os)) (distinct os) := by
    rw [hrenamed, assign, assign, List.map_cons, hunchosen, hname]
    rfl
  -- The new entry has no name, so it repeats none.
  have hnames : Naming.names ((o.id, none) :: assign (renamed outer (distinct os)) (distinct os)) =
      (assign (renamed outer (distinct os)) (distinct os)).names := rfl
  simp only [resolve, distinct_cons_of_notMem hid, groupKeys_cons_unnamed hkey, hexplicit, hassign,
    hnames]
  cases (groupKeys (distinct os)).forM (checkExplicit (distinct os)) with
  | error e => rfl
  | ok _ =>
      rw [ok_bind, ok_bind]
      split <;> rfl

end Naming

/-- With an unnamed source in front, the scope finds what it found before. -/
theorem Scope.enter_unnamed {schema : Schema} {os : List Occurrence} {o : Occurrence}
    (hname : o.name = none) (hid : o.id ∉ os.map (·.id)) {scope : Scope}
    (h : (Scope.outermost schema).enter os = .ok scope) :
    ∃ other, (Scope.outermost schema).enter (o :: os) = .ok other ∧ scope.Extends other ∧
      other.find? o.id = some none := by
  obtain ⟨naming, hnaming, h⟩ := bind_eq_ok.mp h
  cases pure_eq_ok.mp h
  refine ⟨⟨schema, [(o.id, none) :: naming]⟩, ?_, ?_, ?_⟩
  · exact bind_eq_ok.mpr
      ⟨_, (Naming.resolve_cons_unnamed hname hid).trans (congrArg _ hnaming), rfl⟩
  · have hlookup : ∀ id, id ≠ o.id →
        (((o.id, none) :: naming : Naming).lookup id) = naming.lookup id :=
      fun id hne => lookup_cons_of_ne (fun heq => hne heq.symm) none naming
    -- The new id is not among the old ones, so nothing was found under it.
    have habsent : naming.lookup o.id = none := by
      cases hfind : naming.lookup o.id with
      | none => rfl
      | some name =>
          exact absurd ((Naming.mem_ids_of_lookup hnaming).mp (by rw [hfind]; rfl)) hid
    refine ⟨rfl, rfl, fun id name hfind => ?_, fun id => ?_⟩
    · unfold Scope.find? at hfind ⊢
      rw [List.findSome?_cons] at hfind ⊢
      have hne : id ≠ o.id := by
        rintro rfl
        rw [habsent] at hfind
        cases hfind
      rwa [hlookup id hne]
    · unfold Scope.name? Scope.find?
      rw [List.findSome?_cons, List.findSome?_cons]
      by_cases heq : id = o.id
      · rw [heq, habsent, List.lookup_cons_self]
        rfl
      · rw [hlookup id heq]
        rfl
  · unfold Scope.find?
    rw [List.findSome?_cons, List.lookup_cons_self]

end RelationalQuery
