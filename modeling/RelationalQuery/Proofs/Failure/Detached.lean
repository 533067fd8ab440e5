/-
  RelationalQuery.Proofs.Failure.Detached — references to sources that are not there.

  A column may belong to a source of its own statement or of one around it, and these are the
  leaves of their FROM trees. Names are chosen for more than these: a statement names the leaves
  inside the subqueries of its FROM clause along with its own, so that all of them are apart, and
  what is named is found. A source that is hidden inside a subquery of a FROM clause is therefore
  found from outside, and one that stands beside the subquery from inside, although SQL sees
  neither. Apart from these, a query is refused for a reference just when it is out of scope.

  Main definition:
    * `Hidden`: the source is named together with one in scope, but is out of scope itself.

  Main statement:
    * `Query.detached_iff`: when a reference is refused.
-/

import RelationalQuery.Proofs.Building.Reachable
import RelationalQuery.Proofs.Failure.Causes

namespace RelationalQuery

/-- The source is no leaf of a FROM tree around, but named together with one: inside a subquery of a
FROM clause around, or beside one. -/
def Hidden (chain : List Frame) (source : SourceId) : Prop :=
  NamedTogether chain source ∧ ¬InScope chain source

/-- A source out of scope is named together with what is around just when it is hidden. -/
theorem unknown_iff {chain : List Frame} {source : SourceId} :
    ¬InScope chain source ∧ ¬NamedTogether chain source ↔
      ¬InScope chain source ∧ ¬Hidden chain source := by
  constructor
  · rintro ⟨hscope, hnamed⟩
    exact ⟨hscope, fun h => hnamed h.1⟩
  · rintro ⟨hscope, hhidden⟩
    exact ⟨hscope, fun h => hhidden ⟨h, hscope⟩⟩

/-- If a query fails at references only, it fails when one is to an unknown source. -/
theorem Query.detached_of_reference {schema : Schema} {q : Query}
    (hothers : ∀ e, q.compile schema = .error e → ∃ column, e = .detachedSource column)
    {chain : List Frame} {source : SourceId} {column : String}
    (hmem : .reference chain source column ∈ q.allDemands schema)
    (hscope : ¬InScope chain source) (hnamed : ¬NamedTogether chain source) :
    ∃ column, q.compile schema = .error (.detachedSource column) := by
  cases hcompile : q.compile schema with
  | error e =>
      obtain ⟨other, rfl⟩ := hothers e hcompile
      exact ⟨other, rfl⟩
  | ok sql =>
      exfalso
      have hunmet : (Demand.reference chain source column).check schema =
          .error (.detachedSource column) :=
        Demand.check_detached_iff.mpr ⟨chain, source, rfl, hscope, hnamed⟩
      rw [Query.check_of_compile hcompile _ hmem] at hunmet
      cases hunmet

/-- **A reference is refused when its source is neither in scope nor hidden.** The error is that of
the first such column or star, if all that is demanded before it is met. If nothing else fails,
there is an error just when there is such a reference; and if no reference is to a hidden source,
just when one is to a source that is a leaf neither of its own statement's FROM tree nor of one
around. -/
theorem Query.detached_iff (schema : Schema) (q : Query) :
    (∀ column, q.compile schema = .error (.detachedSource column) ↔
      ∃ before chain source after,
        q.allDemands schema = before ++ .reference chain source column :: after ∧
        (∀ d ∈ before, d.check schema = .ok ()) ∧
        ¬InScope chain source ∧ ¬Hidden chain source) ∧
    ((∀ e, q.compile schema = .error e → ∃ column, e = .detachedSource column) →
      ((∃ column, q.compile schema = .error (.detachedSource column)) ↔
        ∃ chain source column, .reference chain source column ∈ q.allDemands schema ∧
          ¬InScope chain source ∧ ¬Hidden chain source) ∧
      ((∀ chain source column, .reference chain source column ∈ q.allDemands schema →
          ¬Hidden chain source) →
        ((∃ column, q.compile schema = .error (.detachedSource column)) ↔
          ∃ chain source column, .reference chain source column ∈ q.allDemands schema ∧
            ¬InScope chain source))) := by
  -- The check of a reference is the only one that fails like this.
  have hfirst : ∀ column, q.compile schema = .error (.detachedSource column) ↔
      ∃ before chain source after,
        q.allDemands schema = before ++ .reference chain source column :: after ∧
        (∀ d ∈ before, d.check schema = .ok ()) ∧
        ¬InScope chain source ∧ ¬Hidden chain source := by
    intro column
    rw [Query.compile_error_iff fun other h => by cases h]
    constructor
    · rintro ⟨before, d, after, hdemands, hbefore, hd⟩
      obtain ⟨chain, source, rfl, hunknown⟩ := Demand.check_detached_iff.mp hd
      exact ⟨before, chain, source, after, hdemands, hbefore, unknown_iff.mp hunknown⟩
    · rintro ⟨before, chain, source, after, hdemands, hbefore, hunknown⟩
      exact ⟨before, .reference chain source column, after, hdemands, hbefore,
        Demand.check_detached_iff.mpr ⟨chain, source, rfl, unknown_iff.mpr hunknown⟩⟩
  refine ⟨hfirst, fun hothers => ?_⟩
  -- If no other error can come first, any such reference is enough.
  have hunknown : (∃ column, q.compile schema = .error (.detachedSource column)) ↔
      ∃ chain source column, .reference chain source column ∈ q.allDemands schema ∧
        ¬InScope chain source ∧ ¬Hidden chain source := by
    constructor
    · rintro ⟨column, hcompile⟩
      obtain ⟨before, chain, source, after, hdemands, _, hsource⟩ := (hfirst column).mp hcompile
      refine ⟨chain, source, column, ?_, hsource⟩
      rw [hdemands]
      exact List.mem_append_right _ (List.mem_cons_self ..)
    · rintro ⟨chain, source, column, hmem, hsource⟩
      obtain ⟨hscope, hnamed⟩ := unknown_iff.mpr hsource
      exact Query.detached_of_reference hothers hmem hscope hnamed
  refine ⟨hunknown, fun hhidden => ?_⟩
  rw [hunknown]
  constructor
  · rintro ⟨chain, source, column, hmem, hscope, _⟩
    exact ⟨chain, source, column, hmem, hscope⟩
  · rintro ⟨chain, source, column, hmem, hscope⟩
    exact ⟨chain, source, column, hmem, hscope, hhidden chain source column hmem⟩

/-- People, by the id of others. -/
def byStranger : Supply Query := do
  let stranger ← Query.table "persons"
  let person ← Query.table "persons"
  return person.restrict (.equal (stranger.column "id") (.value (.integer 1)))

/-- The demands of a statement that stands alone, once its scope is known. -/
theorem Query.allDemands_of_enter {schema : Schema} {scope : Scope} {q : Query}
    (h : (Scope.outermost schema).enter q.occurrences = .ok scope) :
    q.allDemands schema = .naming [] q.occurrences :: q.demands scope q.namedIds [] := by
  rw [Query.allDemands, Demand.inside, h]
  rfl

/-- The stranger is not there: nothing else fails, no source is hidden, and the reference is out of
scope. -/
theorem byStranger_detached :
    (byStranger.run 0).1.compile people = .error (.detachedSource "id") ∧
    ∃ chain source column,
      .reference chain source column ∈ (byStranger.run 0).1.allDemands people ∧
      ¬InScope chain source := by
  have hcompile : (byStranger.run 0).1.compile people = .error (.detachedSource "id") :=
    error?_eq_some.mp (by decide +kernel)
  obtain ⟨scope, hscope⟩ : ∃ scope,
      (Scope.outermost people).enter (byStranger.run 0).1.occurrences = .ok scope :=
    exists_ok (by decide +kernel)
  -- The query asks for the names of its own table, and for the stranger.
  have hdemands : (byStranger.run 0).1.allDemands people =
      [.naming [] [⟨⟨1⟩, some "persons", false⟩], .reference [⟨[⟨1⟩], [⟨1⟩]⟩] ⟨0⟩ "id"] :=
    Query.allDemands_of_enter hscope
  refine ⟨hcompile, (((Query.detached_iff people _).2 ?_).2 ?_).mp ⟨_, hcompile⟩⟩
  · intro e he
    rw [hcompile] at he
    cases he
    exact ⟨"id", rfl⟩
  · intro chain source column hmem
    rw [hdemands] at hmem
    obtain hmem | hmem := List.mem_cons.mp hmem
    · cases hmem
    · cases List.mem_singleton.mp hmem
      exact fun h => absurd h.1 (by decide)

/-! ## Hidden sources -/

/-- People inside a subquery, by the id that they have there. -/
def byHidden : Supply Query := do
  let person ← Query.table "persons"
  let inside ← Query.ofQuery person (some "t")
  return inside.restrict (.equal (person.column "id") (.value (.integer 1)))

/-- **A hidden source is found**: from outside the subquery that it stands in, a column of it
compiles, although it is no leaf of a FROM tree around. -/
theorem hidden_reference_compiles :
    (∃ σ : Session, σ.Reachable ∧ .query (byHidden.run 0).1 ∈ σ.held) ∧
    (∃ sql, (byHidden.run 0).1.compile people = .ok sql) ∧
    ∃ chain source column,
      .reference chain source column ∈ (byHidden.run 0).1.allDemands people ∧
      ¬InScope chain source := by
  refine ⟨?_, exists_ok (by decide +kernel), ?_⟩
  · have hperson := Session.Reachable.start.table "persons"
    have hinside := hperson.ofQuery (List.mem_cons_self ..) (some "t")
    have hall := hinside.restrict (List.mem_cons_self ..)
      (.equal (.column (some ⟨0⟩) "id") (.value (.integer 1))) fun p hp => by cases hp
    exact ⟨_, hall, List.mem_cons_self ..⟩
  · obtain ⟨scope, hscope⟩ : ∃ scope,
        (Scope.outermost people).enter (byHidden.run 0).1.occurrences = .ok scope :=
      exists_ok (by decide +kernel)
    refine ⟨[⟨[⟨1⟩], [⟨1⟩, ⟨0⟩]⟩], ⟨0⟩, "id", ?_, by decide⟩
    rw [Query.allDemands_of_enter hscope]
    exact List.mem_cons_of_mem _ (List.mem_cons_self ..)

end RelationalQuery
