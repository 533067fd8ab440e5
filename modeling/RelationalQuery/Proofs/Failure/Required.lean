/-
  RelationalQuery.Proofs.Failure.Required — required joins below optional ones.

  A join that drops rows, reached only through one that keeps them, would undo what the other is
  for. Rendering hands a flag down the joins that hang on one another, starts it anew for every
  FROM tree, and refuses a required join where it is set. Here the flag is taken away: a join is
  misplaced because of the kinds of the joins above it in its own tree, and of nothing else.

  Main statements:
    * `Source.placed_sublist`: the joins of a FROM tree are demanded in order.
    * `Query.required_after_optional`: which queries are refused, and for which join.
-/

import RelationalQuery.Proofs.Building.Reachable
import RelationalQuery.Proofs.Failure.Causes

namespace RelationalQuery

/-! ## The joins of a FROM tree -/

/-- Joins side by side do not hang on one another. -/
theorem Join.placed_append (above : List JoinKind) (left : Clauses.Anchor) : (a b : List Join) →
    Join.placed above left (a ++ b) = Join.placed above left a ++ Join.placed above left b
  | [], _ => rfl
  | ⟨_, kind, ⟨name, target, mapping, condition, selection, joins⟩⟩ :: rest, b => by
      rw [List.cons_append, Join.placed, Join.placed, Join.placed_append above left rest b,
        List.append_assoc]

/-- Required joins, and then optional ones, may hang on one another. -/
theorem PlacedJoin.not_misplaced_of_path {placed : PlacedJoin} {required optional : List JoinKind}
    (hpath : placed.path = required ++ optional) (hrequired : ∀ kind ∈ required, kind ≠ .left)
    (hoptional : ∀ kind ∈ optional, kind = .left) : ¬placed.Misplaced := by
  rintro ⟨hkind, habove⟩
  unfold PlacedJoin.path at hpath
  -- The last kind of the path is that of the join itself, so nothing optional can end the path.
  have hnil : optional = [] := by
    cases hlast : optional.getLast? with
    | none => exact List.getLast?_eq_none_iff.mp hlast
    | some last =>
        have hend := congrArg List.getLast? hpath
        rw [List.getLast?_append, List.getLast?_append, hlast, List.getLast?_singleton,
          Option.some_or, Option.some_or] at hend
        cases hend
        exact absurd (hoptional _ (List.mem_of_getLast? hlast)) hkind
  rw [hnil, List.append_nil] at hpath
  have hmem : JoinKind.left ∈ placed.above.reverse ++ [placed.kind] :=
    List.mem_append_left _ (List.mem_reverse.mpr habove)
  rw [hpath] at hmem
  exact hrequired _ hmem rfl

mutual

/-- **The joins of a FROM tree are demanded in order**, each before those below it. -/
theorem Source.placed_sublist {scope : Scope} {frame : Frame} {outer : List Frame} :
    (s : Source) → (s.placed.map Demand.join).Sublist (s.demands scope frame outer)
  | .table _ _ _ => by
      rw [Source.placed]
      exact List.nil_sublist _
  | .subquery _ _ _ => by
      rw [Source.placed]
      exact List.nil_sublist _
  | .joinTree _ left joins => by
      rw [Source.placed, Source.demands, List.map_append]
      exact left.placed_sublist.append (Join.placed_sublist [] _ joins)

/-- The joins of a FROM tree are among its demands, in their order. -/
theorem Join.placed_sublist {scope : Scope} {frame : Frame} {outer : List Frame} :
    (above : List JoinKind) → (left : Clauses.Anchor) → (joins : List Join) →
    ((Join.placed above left joins).map Demand.join).Sublist
      (Join.demands scope frame outer above left joins)
  | _, _, [] => List.nil_sublist _
  | above, left, ⟨_, kind, ⟨name, target, mapping, condition, selection, joins⟩⟩ :: rest => by
      rw [Join.placed, Join.demands, List.cons_append, List.map_cons, List.map_append,
        List.map_append, List.append_assoc]
      refine List.Sublist.cons_cons _ (target.placed_sublist.append ?_)
      -- Between the target and the joins below it stands the condition.
      refine List.sublist_append_of_sublist_right ?_
      exact (Join.placed_sublist (kind :: above) _ joins).append
        (Join.placed_sublist above left rest)

end

/-- So they are among the demands of the query. -/
theorem Query.placed_sublist {scope : Scope} {together : List SourceId} {outer : List Frame}
    {q : Query} {s : Source} (hs : q.source = some s) :
    (s.placed.map Demand.join).Sublist (q.demands scope together outer) := by
  obtain ⟨selection, distinct, source, filter, groupBy, having, orderings, reversed, limit⟩ := q
  cases hs
  rw [Query.demands]
  refine List.sublist_append_of_sublist_right (List.sublist_append_of_sublist_left ?_)
  rw [Source.demandsClause]
  exact s.placed_sublist

/-- So they are among all demands of compiling the query. -/
theorem Query.placed_sublist_allDemands {schema : Schema} {scope : Scope} {q : Query}
    (hscope : (Scope.outermost schema).enter q.occurrences = .ok scope) {s : Source}
    (hs : q.source = some s) : (s.placed.map Demand.join).Sublist (q.allDemands schema) := by
  rw [Query.allDemands, Demand.inside, hscope]
  exact (Query.placed_sublist hs).cons _

/-! ## Queries that are refused -/

/-- What compiles has no misplaced join in any FROM tree that is rendered. -/
theorem Query.not_misplaced_of_compile {schema : Schema} {q : Query} {sql : BoundSql}
    (h : q.compile schema = .ok sql) {placed : PlacedJoin}
    (hplaced : .join placed ∈ q.allDemands schema) : ¬placed.Misplaced := by
  intro hmisplaced
  have hrefused : (Demand.join placed).check schema =
      .error (.requiredAfterOptional placed.relation.name) :=
    Demand.check_required_iff.mpr ⟨placed, rfl, hmisplaced, rfl⟩
  rw [Query.check_of_compile h _ hplaced] at hrefused
  cases hrefused

/-- **A required join below an optional one fails**, whatever the schema says. -/
theorem Query.fails_of_misplaced {q : Query} {s : Source} (hs : q.source = some s)
    {placed : PlacedJoin} (hplaced : placed ∈ s.placed) (hmisplaced : placed.Misplaced)
    (schema : Schema) : ∃ e, q.compile schema = .error e := by
  cases hcompile : q.compile schema with
  | error e => exact ⟨e, rfl⟩
  | ok sql =>
      exfalso
      obtain ⟨fragment, hfragment, _⟩ := bind_eq_ok.mp hcompile
      obtain ⟨scope, hscope, _⟩ := bind_eq_ok.mp hfragment
      have hmem : Demand.join placed ∈ q.allDemands schema :=
        (Query.placed_sublist_allDemands hscope hs).subset (List.mem_map_of_mem hplaced)
      exact Query.not_misplaced_of_compile hcompile hmem hmisplaced

/-- **Required joins below optional ones are refused, and nothing else is refused as such.** What
compiles has none in any FROM tree that is rendered; a query with one in its own FROM tree compiles
for no schema; the joins of that tree are demanded in order, each before those below it; and the
error names the first misplaced join, exactly when all that is demanded before it is met. Joins side
by side do not count for one another, and optional joins may follow required ones. -/
theorem Query.required_after_optional (schema : Schema) (q : Query) :
    (∀ sql, q.compile schema = .ok sql → ∀ placed, .join placed ∈ q.allDemands schema →
      ¬placed.Misplaced) ∧
    (∀ s, q.source = some s → (∃ placed ∈ s.placed, placed.Misplaced) →
      ∀ other, ∃ e, q.compile other = .error e) ∧
    (∀ s scope, q.source = some s → (Scope.outermost schema).enter q.occurrences = .ok scope →
      (s.placed.map Demand.join).Sublist (q.allDemands schema)) ∧
    (∀ name, q.compile schema = .error (.requiredAfterOptional name) ↔
      ∃ before placed after, q.allDemands schema = before ++ .join placed :: after ∧
        (∀ d ∈ before, d.check schema = .ok ()) ∧ placed.Misplaced ∧ placed.relation.name = name) ∧
    (∀ above left a b, Join.placed above left (a ++ b) =
      Join.placed above left a ++ Join.placed above left b) ∧
    ∀ placed required optional, PlacedJoin.path placed = required ++ optional →
      (∀ kind ∈ required, kind ≠ .left) → (∀ kind ∈ optional, kind = .left) →
        ¬placed.Misplaced := by
  refine ⟨fun sql h placed hplaced => Query.not_misplaced_of_compile h hplaced, ?_,
    fun s scope hs hscope => Query.placed_sublist_allDemands hscope hs, ?_, Join.placed_append,
    fun placed required optional => PlacedJoin.not_misplaced_of_path⟩
  · rintro s hs ⟨placed, hplaced, hmisplaced⟩ other
    exact Query.fails_of_misplaced hs hplaced hmisplaced other
  · intro name
    rw [Query.compile_error_iff fun other h => by cases h]
    constructor
    · rintro ⟨before, d, after, hdemands, hbefore, hd⟩
      -- Only a join asks for its place.
      obtain ⟨placed, rfl, hmisplaced, hname⟩ := Demand.check_required_iff.mp hd
      exact ⟨before, placed, after, hdemands, hbefore, hmisplaced, hname⟩
    · rintro ⟨before, placed, after, hdemands, hbefore, hmisplaced, hname⟩
      exact ⟨before, .join placed, after, hdemands, hbefore,
        Demand.check_required_iff.mpr ⟨placed, rfl, hmisplaced, hname⟩⟩

/-- People with their leaders, and the leaders of these, by joins of the given kinds. -/
def leadersOfLeaders (first second : JoinKind) : Supply Query := do
  let people ← Query.table "persons"
  let leader ← Relation.foreignKey "leader" "persons" [("leader_id", "id")]
  let above ← Relation.foreignKey "above" "persons" [("leader_id", "id")]
  let leader ← leader.attach second true [above]
  people.attach first true [leader]

/-- A required leader behind an optional one is refused, and is the one that the error names; the
other way around there is nothing to refuse. -/
theorem leadersOfLeaders_refused :
    (∃ e, ((leadersOfLeaders .left .inner).run 0).1.compile people = .error e) ∧
    (∃ before placed after,
      ((leadersOfLeaders .left .inner).run 0).1.allDemands people =
        before ++ .join placed :: after ∧
      (∀ d ∈ before, d.check people = .ok ()) ∧ placed.Misplaced ∧
      placed.relation.name = "above") ∧
    ∃ sql, ((leadersOfLeaders .inner .left).run 0).1.compile people = .ok sql ∧
      ∀ placed, .join placed ∈ ((leadersOfLeaders .inner .left).run 0).1.allDemands people →
        ¬placed.Misplaced := by
  obtain ⟨sql, hsql⟩ : ∃ sql,
      ((leadersOfLeaders .inner .left).run 0).1.compile people = .ok sql :=
    exists_ok (by decide +kernel)
  refine ⟨?_, ?_, sql, hsql,
    (Query.required_after_optional people _).1 sql hsql⟩
  · refine (Query.required_after_optional people _).2.1 _ rfl ?_ people
    exact ⟨_, List.mem_cons_of_mem _ (List.mem_cons_self ..), by decide, by decide⟩
  · refine ((Query.required_after_optional people _).2.2.2.1 "above").mp ?_
    exact error?_eq_some.mp (by decide +kernel)

end RelationalQuery
