/-
  RelationalQuery.Proofs.Failure.Alike — one more source beside a query leaves its demands alike.

  When the leaves of a query are named together with one leaf more, and that leaf has no name, the
  same names are in use everywhere, and the same sources are known but for the new one. So the
  query demands what it demanded, in the same order, and each demand is met or not as before, unless
  it is a reference to the new source.

  Main definitions:
    * `KnowAlike`: FROM clauses that know the same sources, but for one.
    * `Demand.Alike`: demands that are met alike, unless they refer to that source.

  Main statements:
    * `Query.demands_alike`: the walk over a query.
    * `Demand.checks_alike`: checks in a row that go alike.
-/

import Mathlib.Data.List.Forall2
import RelationalQuery.Proofs.Failure.Follows

namespace RelationalQuery

/-! ## FROM clauses that know alike -/

/-- The FROM clauses around know the same sources, but for one. -/
def KnowAlike (extra : SourceId) (chain other : List Frame) : Prop :=
  ∀ source, source ≠ extra → ((InScope chain source ∨ NamedTogether chain source) ↔
    (InScope other source ∨ NamedTogether other source))

/-- The same leaves are named together, but for one. -/
def NamedAlike (extra : SourceId) (together others : List SourceId) : Prop :=
  ∀ source, source ≠ extra → (source ∈ together ↔ source ∈ others)

section Chains

variable {extra : SourceId} {chain other : List Frame}

theorem KnowAlike.refl (extra : SourceId) (chain : List Frame) : KnowAlike extra chain chain :=
  fun _ _ => Iff.rfl

theorem NamedAlike.refl (extra : SourceId) (together : List SourceId) :
    NamedAlike extra together together := fun _ _ => Iff.rfl

/-- One FROM clause more, whose leaves are named alike. -/
theorem KnowAlike.cons (h : KnowAlike extra chain other) (leaves : List SourceId)
    {together others : List SourceId} (hnamed : NamedAlike extra together others) :
    KnowAlike extra (⟨leaves, together⟩ :: chain) (⟨leaves, others⟩ :: other) := by
  intro source hne
  have hrest := h source hne
  have hown := hnamed source hne
  rw [inScope_cons, namedTogether_cons, inScope_cons, namedTogether_cons, ← hown]
  constructor
  · rintro ((hleaf | hscope) | (htogether | hnamedBy))
    · exact .inl (.inl hleaf)
    · exact (hrest.mp (.inl hscope)).imp .inr .inr
    · exact .inr (.inl htogether)
    · exact (hrest.mp (.inr hnamedBy)).imp .inr .inr
  · rintro ((hleaf | hscope) | (htogether | hnamedBy))
    · exact .inl (.inl hleaf)
    · exact (hrest.mpr (.inl hscope)).imp .inr .inr
    · exact .inr (.inl htogether)
    · exact (hrest.mpr (.inr hnamedBy)).imp .inr .inr

end Chains

/-! ## Demands that are met alike -/

namespace Demand

/-- Demands of one kind, about one thing, of FROM clauses that know alike. -/
inductive Alike (extra : SourceId) : Demand → Demand → Prop
  | naming (outer : List String) (occurrences : List Occurrence) :
      Alike extra (.naming outer occurrences) (.naming outer occurrences)
  | reference {chain other : List Frame} (h : KnowAlike extra chain other) (source : SourceId)
      (column : String) : Alike extra (.reference chain source column)
        (.reference other source column)
  | join (placed : PlacedJoin) : Alike extra (.join placed) (.join placed)

/-- Demands in a row that are alike. -/
abbrev AllAlike (extra : SourceId) : List Demand → List Demand → Prop :=
  List.Forall₂ (Alike extra)

/-- The demand is a reference to the source. -/
def RefersTo (source : SourceId) (d : Demand) : Prop :=
  ∃ chain column, d = .reference chain source column

instance (source : SourceId) : (d : Demand) → Decidable (d.RefersTo source)
  | .reference chain own column =>
    if h : own = source then isTrue ⟨chain, column, h ▸ rfl⟩
    else isFalse fun ⟨_, _, heq⟩ => h (Demand.reference.inj heq).2.1
  | .naming .. => isFalse fun ⟨_, _, heq⟩ => by cases heq
  | .join .. => isFalse fun ⟨_, _, heq⟩ => by cases heq

variable {extra : SourceId} {schema : Schema}

/-- A demand that does not refer to the new source is met as the one that it is alike to. -/
theorem Alike.check_eq {d d' : Demand} (h : Alike extra d d') (hd : ¬d.RefersTo extra) :
    d.check schema = d'.check schema := by
  cases h with
  | naming outer occurrences => rfl
  | join placed => rfl
  | @reference chain other h source column =>
      have hne : source ≠ extra := by
        rintro rfl
        exact hd ⟨chain, column, rfl⟩
      rw [check, check]
      exact if_congr (h source hne) rfl rfl

/-- **Checks of demands that are alike go alike**, if none is a reference to the new source. -/
theorem checks_alike (schema : Schema) {ds es : List Demand} (h : AllAlike extra ds es)
    (hds : ∀ d ∈ ds, ¬d.RefersTo extra) : forM ds (check schema) = forM es (check schema) := by
  induction h with
  | nil => rfl
  | cons hfirst _ ih =>
      obtain ⟨hd, hrest⟩ := List.forall_mem_cons.mp hds
      rw [List.forM_cons, List.forM_cons, hfirst.check_eq hd, ih hrest]

/-- Demands that are alike can be put behind each other. -/
theorem AllAlike.append {as bs cs ds : List Demand} (h : AllAlike extra as bs)
    (h' : AllAlike extra cs ds) : AllAlike extra (as ++ cs) (bs ++ ds) := List.rel_append h h'

/-- Compared operands whose demands are alike demand alike. -/
theorem ofComparison_alike (lhs rhs : Expr) {left left' right right' : List Demand}
    (hleft : AllAlike extra left left') (hright : AllAlike extra right right') :
    AllAlike extra (ofComparison lhs rhs left right) (ofComparison lhs rhs left' right') := by
  unfold ofComparison
  split
  · exact hleft
  · split
    · exact hright
    · exact hleft.append hright

/-- A mapping demands alike of FROM clauses that know alike. -/
theorem ofMapping_alike {chain other : List Frame} (h : KnowAlike extra chain other)
    (left target : SourceId) : (mapping : List (String × String)) →
    AllAlike extra (ofMapping chain left target mapping) (ofMapping other left target mapping)
  | [] => .nil
  | (leftColumn, targetColumn) :: rest =>
      .cons (.reference h target targetColumn)
        (.cons (.reference h left leftColumn) (ofMapping_alike h left target rest))

/-- A nested statement demands alike in scopes with the same names. -/
theorem inside_alike {scope scope' : Scope} (hvisible : scope.visible = scope'.visible)
    (os : List Occurrence) {within within' : Scope → List Demand}
    (h : ∀ inner inner' : Scope, inner.visible = inner'.visible →
      AllAlike extra (within inner) (within' inner')) :
    AllAlike extra (inside scope os within) (inside scope' os within') := by
  unfold inside Scope.enter
  rw [← hvisible]
  -- Both scopes choose the same names inside, or neither has any.
  refine .cons (.naming _ _) ?_
  cases Naming.resolve scope.visible os with
  | error e => exact .nil
  | ok naming =>
      refine h _ _ ?_
      unfold Scope.visible at hvisible ⊢
      rw [List.flatMap_cons, List.flatMap_cons, List.map_append, List.map_append, hvisible]

end Demand

/-! ## The walk over a query -/

open Demand

mutual

/-- An expression demands alike: by induction over it, where a subquery puts one more FROM clause in
front of both. -/
theorem Expr.demands_alike {extra : SourceId} {scope scope' : Scope} {chain other : List Frame}
    (hvisible : scope.visible = scope'.visible) (h : KnowAlike extra chain other) : (e : Expr) →
    AllAlike extra (e.demands scope chain) (e.demands scope' other)
  | .literal _ _ | .value _ | .column none _ => by
      simp only [Expr.demands]
      exact .nil
  | .column (some source) name => by
      rw [Expr.demands, Expr.demands]
      exact .cons (.reference h source name) .nil
  | .collate e _ | .not e | .prefixOp _ e | .countDistinct e => by
      simp only [Expr.demands]
      exact e.demands_alike hvisible h
  | .equal lhs rhs | .notEqual lhs rhs | .is lhs rhs | .isNot lhs rhs => by
      simp only [Expr.demands]
      exact ofComparison_alike lhs rhs (lhs.demands_alike hvisible h) (rhs.demands_alike hvisible h)
  | .infixOp _ lhs rhs => by
      rw [Expr.demands, Expr.demands]
      exact (lhs.demands_alike hvisible h).append (rhs.demands_alike hvisible h)
  | .and es | .or es | .call _ es => by
      simp only [Expr.demands]
      exact Expr.demandsAll_alike hvisible h es
  | .inList e items => by
      rw [Expr.demands, Expr.demands]
      split
      · exact .nil
      · exact (e.demands_alike hvisible h).append (Expr.demandsAll_alike hvisible h items)
  -- A subquery in an expression is named by itself, so the new leaf is not among its names.
  | .inQuery e query => by
      rw [Expr.demands, Expr.demands]
      refine (e.demands_alike hvisible h).append (inside_alike hvisible _ fun _ _ hinner => ?_)
      exact query.demands_alike hinner (.refl _ _) h
  | .exists query => by
      rw [Expr.demands, Expr.demands]
      refine inside_alike hvisible _ fun _ _ hinner => ?_
      exact query.demands_alike hinner (.refl _ _) h
  | .between e low high => by
      rw [Expr.demands, Expr.demands]
      exact (e.demands_alike hvisible h).append
        ((low.demands_alike hvisible h).append (high.demands_alike hvisible h))
  | .count counted => by
      rw [Expr.demands, Expr.demands]
      exact counted.demands_alike hvisible h

/-- Expressions in a list demand alike. -/
theorem Expr.demandsAll_alike {extra : SourceId} {scope scope' : Scope}
    {chain other : List Frame} (hvisible : scope.visible = scope'.visible)
    (h : KnowAlike extra chain other) : (es : List Expr) →
    AllAlike extra (Expr.demandsAll scope chain es) (Expr.demandsAll scope' other es)
  | [] => .nil
  | e :: rest => by
      rw [Expr.demandsAll, Expr.demandsAll]
      exact (e.demands_alike hvisible h).append (Expr.demandsAll_alike hvisible h rest)

/-- The condition of a clause demands alike. -/
theorem Expr.demandsOf_alike {extra : SourceId} {scope scope' : Scope} {chain other : List Frame}
    (hvisible : scope.visible = scope'.visible) (h : KnowAlike extra chain other) :
    (e : Option Expr) →
    AllAlike extra (Expr.demandsOf scope chain e) (Expr.demandsOf scope' other e)
  | none => .nil
  | some condition => by
      rw [Expr.demandsOf, Expr.demandsOf]
      exact condition.demands_alike hvisible h

/-- A result column demands alike. -/
theorem ResultColumn.demands_alike {extra : SourceId} {scope scope' : Scope}
    {chain other : List Frame} (hvisible : scope.visible = scope'.visible)
    (h : KnowAlike extra chain other) : (column : ResultColumn) →
    AllAlike extra (column.demands scope chain) (column.demands scope' other)
  | .star source => by
      rw [ResultColumn.demands, ResultColumn.demands]
      exact .cons (.reference h source "*") .nil
  | .expr e | .aliased e _ => by
      simp only [ResultColumn.demands]
      exact e.demands_alike hvisible h

/-- The columns of a select list demand alike. -/
theorem ResultColumn.demandsAll_alike {extra : SourceId} {scope scope' : Scope}
    {chain other : List Frame} (hvisible : scope.visible = scope'.visible)
    (h : KnowAlike extra chain other) : (columns : List ResultColumn) →
    AllAlike extra (ResultColumn.demandsAll scope chain columns)
      (ResultColumn.demandsAll scope' other columns)
  | [] => .nil
  | column :: rest => by
      rw [ResultColumn.demandsAll, ResultColumn.demandsAll]
      exact (column.demands_alike hvisible h).append
        (ResultColumn.demandsAll_alike hvisible h rest)

/-- The terms of an ordering demand alike. -/
theorem OrderingTerm.demandsAll_alike {extra : SourceId} {scope scope' : Scope}
    {chain other : List Frame} (hvisible : scope.visible = scope'.visible)
    (h : KnowAlike extra chain other) : (terms : List OrderingTerm) →
    AllAlike extra (OrderingTerm.demandsAll scope chain terms)
      (OrderingTerm.demandsAll scope' other terms)
  | [] => .nil
  | ⟨e, _⟩ :: rest => by
      rw [OrderingTerm.demandsAll, OrderingTerm.demandsAll]
      exact (e.demands_alike hvisible h).append (OrderingTerm.demandsAll_alike hvisible h rest)

/-- **A statement whose leaves are named together with one more demands alike.** -/
theorem Query.demands_alike {extra : SourceId} {scope scope' : Scope}
    {together others : List SourceId} {outer outer' : List Frame}
    (hvisible : scope.visible = scope'.visible) (hnamed : NamedAlike extra together others)
    (h : KnowAlike extra outer outer') : (q : Query) →
    AllAlike extra (q.demands scope together outer) (q.demands scope' others outer')
  | ⟨selection, _, source, filter, groupBy, having, orderings, _, _⟩ => by
      -- Everything but the FROM clause has the leaves of the statement itself in scope.
      have hchain := h.cons (Source.leafIdsOf source) hnamed
      rw [Query.demands, Query.demands]
      refine AllAlike.append ?_ ?_
      · split
        · exact .nil
        · exact (ResultColumn.demandsAll_alike hvisible hchain selection).append
            (Source.demandsColumns_alike hvisible hchain source)
      · exact (Source.demandsClause_alike hvisible _ hnamed h source).append
          ((Expr.demandsOf_alike hvisible hchain filter).append
            ((Expr.demandsAll_alike hvisible hchain groupBy).append
              ((Expr.demandsOf_alike hvisible hchain having).append
                (OrderingTerm.demandsAll_alike hvisible hchain orderings))))

/-- The columns that joins add to a select list demand alike. -/
theorem Source.demandsColumns_alike {extra : SourceId} {scope scope' : Scope}
    {chain other : List Frame} (hvisible : scope.visible = scope'.visible)
    (h : KnowAlike extra chain other) : (source : Option Source) →
    AllAlike extra (Source.demandsColumns scope chain source)
      (Source.demandsColumns scope' other source)
  | none | some (.table _ _ _) | some (.subquery _ _ _) => by
      simp only [Source.demandsColumns]
      exact .nil
  | some (.joinTree _ _ joins) => by
      rw [Source.demandsColumns, Source.demandsColumns]
      exact Join.demandsColumns_alike hvisible h joins

/-- A FROM clause demands alike, its leaves being named together with the new one or without it. -/
theorem Source.demandsClause_alike {extra : SourceId} {scope scope' : Scope}
    (hvisible : scope.visible = scope'.visible) (leaves : List SourceId)
    {together others : List SourceId} {outer outer' : List Frame}
    (hnamed : NamedAlike extra together others) (h : KnowAlike extra outer outer') :
    (source : Option Source) →
    AllAlike extra (Source.demandsClause scope ⟨leaves, together⟩ outer source)
      (Source.demandsClause scope' ⟨leaves, others⟩ outer' source)
  | none => .nil
  | some source => by
      rw [Source.demandsClause, Source.demandsClause]
      exact source.demands_alike hvisible leaves hnamed h

/-- The columns that joins and the joins below them add demand alike. -/
theorem Join.demandsColumns_alike {extra : SourceId} {scope scope' : Scope}
    {chain other : List Frame} (hvisible : scope.visible = scope'.visible)
    (h : KnowAlike extra chain other) : (joins : List Join) →
    AllAlike extra (Join.demandsColumns scope chain joins) (Join.demandsColumns scope' other joins)
  | [] => .nil
  | ⟨included, _, ⟨_, target, _, _, selection, joins⟩⟩ :: rest => by
      rw [Join.demandsColumns, Join.demandsColumns]
      refine AllAlike.append ?_ ((Join.demandsColumns_alike hvisible h joins).append
        (Join.demandsColumns_alike hvisible h rest))
      split
      · exact ResultColumn.demandsAll_alike hvisible h (selection target.id)
      · exact .nil

/-- A source demands alike, with the query inside it. -/
theorem Source.demands_alike {extra : SourceId} {scope scope' : Scope}
    (hvisible : scope.visible = scope'.visible) (leaves : List SourceId)
    {together others : List SourceId} {outer outer' : List Frame}
    (hnamed : NamedAlike extra together others) (h : KnowAlike extra outer outer') :
    (s : Source) →
    AllAlike extra (s.demands scope ⟨leaves, together⟩ outer)
      (s.demands scope' ⟨leaves, others⟩ outer')
  | .table _ _ _ => by
      rw [Source.demands, Source.demands]
      exact .nil
  -- Leaves inside the subquery are named with those around it, so the new one is beside them too.
  | .subquery _ query _ => by
      rw [Source.demands, Source.demands]
      exact query.demands_alike hvisible hnamed h
  | .joinTree _ left joins => by
      rw [Source.demands, Source.demands]
      exact (left.demands_alike hvisible leaves hnamed h).append
        (Join.demands_alike hvisible leaves hnamed h [] _ joins)

/-- The joins on a source demand alike, with the joins below them. -/
theorem Join.demands_alike {extra : SourceId} {scope scope' : Scope}
    (hvisible : scope.visible = scope'.visible) (leaves : List SourceId)
    {together others : List SourceId} {outer outer' : List Frame}
    (hnamed : NamedAlike extra together others) (h : KnowAlike extra outer outer')
    (above : List JoinKind) (left : Clauses.Anchor) : (joins : List Join) →
    AllAlike extra (Join.demands scope ⟨leaves, together⟩ outer above left joins)
      (Join.demands scope' ⟨leaves, others⟩ outer' above left joins)
  | [] => .nil
  | ⟨_, kind, ⟨_, target, mapping, condition, _, joins⟩⟩ :: rest => by
      have hchain := h.cons leaves hnamed
      rw [Join.demands, Join.demands]
      refine .cons (.join _) ((target.demands_alike hvisible leaves hnamed h).append
        (AllAlike.append ?_ ((Join.demands_alike hvisible leaves hnamed h (kind :: above) _
            joins).append
          (Join.demands_alike hvisible leaves hnamed h above left rest))))
      -- A cross join asks for nothing of its own.
      split
      · exact .nil
      · exact (ofMapping_alike hchain left.id target.id mapping).append
          (Expr.demandsAll_alike hvisible hchain (condition left.id target.id))

end

end RelationalQuery
