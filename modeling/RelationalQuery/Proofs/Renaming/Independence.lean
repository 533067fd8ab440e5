/-
  RelationalQuery.Proofs.Renaming.Independence — no statement depends on the ids in a query.

  Three ways of coming by other ids are the same in the end: a query whose ids are renamed, a
  program that draws its ids from another start, and a relation that is attached once more, so that
  its fork draws ids of its own. In each the statements agree because the queries are the same under
  a renaming.

  Main statements:
    * `Program.run_agree`: what a program builds does not depend on where its ids are drawn from.
    * `Query.independent_of_ids`: all three.
    * `ledPeople_independent`: a query under other ids, and a relation attached twice.
-/

import RelationalQuery.Proofs.Building.Reachable
import RelationalQuery.Proofs.Renaming.Programs

namespace RelationalQuery

/-- Renames what is drawn from `n` on to what is drawn from `m` on. -/
def Renaming.between (n m : Nat) : Renaming where
  renames a b := ∃ i, a = ⟨n + i⟩ ∧ b = ⟨m + i⟩
  biUnique := by
    constructor
    · rintro _ _ _ ⟨i, rfl, rfl⟩ ⟨j, rfl, hj⟩
      rw [Nat.add_left_cancel (SourceId.mk.inj hj)]
    · rintro _ _ _ ⟨i, rfl, rfl⟩ ⟨j, hj, rfl⟩
      rw [Nat.add_left_cancel (SourceId.mk.inj hj)]

/-- **Programs from sessions that are the same under other ids build queries that agree.** -/
theorem Program.run_agree {ρ : Renaming} (program : List Step) {σ σ' : Session}
    (h : Session.Twin ρ σ σ') (schema : Schema) (place : Nat) :
    Option.Rel (Query.Agree schema) ((Program.run program σ).query? place)
      ((Program.run program σ').query? place) := by
  have hquery := (Program.run_twin program h).query? place
  generalize (Program.run program σ).query? place = q, (Program.run program σ').query? place = q'
    at hquery
  cases hquery with
  | none => exact .none
  | some hq => exact .some (hq.agree schema)

/-- **No statement depends on ids.** A query whose ids are renamed agrees with the query: both
compile to the same text with the same arguments, have as many columns and rows of the same shape,
or fail with the same errors. A program builds queries that agree, from wherever it draws its ids.
And so do queries to which one relation is attached, if they are the same under other ids beside
it. -/
theorem Query.independent_of_ids (schema : Schema) :
    (∀ (f : SourceId → SourceId) (hf : Function.Injective f) (q q' : Query),
      q.Renamed (.ofInjective f hf) q' → Query.Agree schema q q') ∧
    (∀ (program : List Step) (n m place : Nat),
      Option.Rel (Query.Agree schema) ((Program.run program ⟨n, []⟩).query? place)
        ((Program.run program ⟨m, []⟩).query? place)) ∧
    ∀ (ρ : Renaming) (n m : Nat), ρ.InStep n m → ∀ q q' : Query, q.Renamed ρ q' →
      ∀ r : Relation, r.Renamed ρ r → ∀ (kind : JoinKind) (included : Bool),
        Query.Agree schema ((q.attach kind included [r]).run n).1
          ((q'.attach kind included [r]).run m).1 := by
  refine ⟨fun f hf q q' h => h.agree schema, fun program n m place => ?_,
    fun ρ n m hstep q q' hq r hr kind included => ?_⟩
  · -- The two programs draw their ids one by one from their own starts.
    have hstep : (Renaming.between n m).InStep n m := fun i => ⟨i, rfl, rfl⟩
    exact Program.run_agree program ⟨hstep, .nil⟩ schema place
  · obtain ⟨hattached, _⟩ := Query.attach_renamed hq kind included (.cons hr .nil) n m hstep
    exact hattached.agree schema

/-! ## A query under other ids -/

namespace Made

/-- A held query, or the empty one when none is held there. -/
def query (place : Nat) : Made Query.Renamed where
  make σ := (σ.query? place).getD .empty
  same_make h := rel_getD (h.query? place) Query.empty_renamed

/-- A column of a query. -/
def column (q : Made Query.Renamed) (name : String) : Made Expr.Renamed where
  make σ := (q.make σ).column name
  same_make h := Query.column_renamed (q.same_make h) name

def equal (a b : Made Expr.Renamed) : Made Expr.Renamed where
  make σ := .equal (a.make σ) (b.make σ)
  same_make h := .equal (a.same_make h) (b.same_make h)

def hasRows (q : Made Query.Renamed) : Made Expr.Renamed where
  make σ := (q.make σ).hasRows
  same_make h := .exists (q.same_make h)

end Made

/-- People with their leaders twice, of those whose leader is a person, step by step. -/
def ledProgram : List Step :=
  [.table "persons", .foreignKey "leader" "persons" [("leader_id", "id")],
    .attach 1 .left true [0, 0], .table "persons",
    .restrict 0 (.equal (.column (.query 0) "id") (.column (.query 1) "leader_id")),
    .restrict 2 (.hasRows (.query 0))]

theorem ledProgram_run : (Program.run ledProgram ⟨0, []⟩).query? 0 = some ledPeople := rfl

/-- Passes over some ids. -/
def SourceId.later (count : Nat) (id : SourceId) : SourceId := ⟨id.index + count⟩

/-- Adding to an id keeps ids apart. -/
theorem SourceId.later_injective (count : Nat) : Function.Injective (later count) := by
  rintro ⟨a⟩ ⟨b⟩ h
  obtain rfl : a = b := Nat.add_right_cancel (SourceId.mk.inj h)
  rfl

/-- The same people under later ids. -/
def laterPeople : Query := ((Program.run ledProgram ⟨7, []⟩).query? 0).getD .empty

/-- People with their leaders, and the same under later ids. -/
theorem laterPeople_renamed :
    ledPeople.Renamed (.ofInjective (SourceId.later 7) (SourceId.later_injective 7))
      laterPeople := by
  have hstart : Session.Twin (.ofInjective (SourceId.later 7) (SourceId.later_injective 7))
      ⟨0, []⟩ ⟨7, []⟩ := by
    refine ⟨fun i => ?_, .nil⟩
    show SourceId.mk (0 + i + 7) = ⟨7 + i⟩
    rw [Nat.zero_add, Nat.add_comm]
  have hquery := (Program.run_twin ledProgram hstart).query? 0
  have hrenamed := rel_getD hquery Query.empty_renamed
  rwa [ledProgram_run] at hrenamed

/-! ## A relation that is attached twice -/

/-- A relation to the leader, the first that is built. -/
def leader : Relation := ((Relation.foreignKey "leader" "persons" [("leader_id", "id")]).run 0).1

/-- People, the next source that is built. -/
def firstPeople : Query := ((Query.table "persons").run 1).1

/-- People, built when the relation has been attached to the first. -/
def secondPeople : Query := ((Query.table "persons").run 4).1

/-- Renames the first people to the second, and what is drawn behind either. -/
def Renaming.again : Renaming where
  renames a b := (a.index = 0 ∧ b.index = 0) ∨ (a.index = 1 ∧ b.index = 4) ∨
    (2 ≤ a.index ∧ b.index = a.index + 3)
  biUnique := by
    constructor
    · rintro ⟨a⟩ ⟨b⟩ ⟨c⟩ h h'
      obtain rfl : a = b := by
        simp only at h h'
        omega
      rfl
    · rintro ⟨a⟩ ⟨b⟩ ⟨c⟩ h h'
      obtain rfl : b = c := by
        simp only at h h'
        omega
      rfl

/-- What the two queries draw from 2 and from 5 is renamed one by one. -/
theorem again_inStep : Renaming.again.InStep 2 5 := fun i =>
  Or.inr (Or.inr ⟨Nat.le_add_right 2 i, Nat.add_right_comm 2 3 i⟩)

/-- The relation stays as it is. -/
theorem leader_renamed : leader.Renamed .again leader :=
  Relation.unconditional_renamed "leader" (.table (Or.inl ⟨rfl, rfl⟩) "persons" _) _
    fun _ _ _ _ _ _ => .nil

/-- The second query is the first one under other ids. -/
theorem secondPeople_renamed : firstPeople.Renamed .again secondPeople :=
  Query.ofSource_renamed (.table (Or.inr (Or.inl ⟨rfl, rfl⟩)) "persons" none)

/-- The assumptions are met by people and their leaders: under later ids, from another start, and
with one relation attached to two queries. -/
theorem ledPeople_independent :
    Query.Agree people ledPeople laterPeople ∧
    Option.Rel (Query.Agree people) ((Program.run ledProgram ⟨0, []⟩).query? 0)
      ((Program.run ledProgram ⟨40, []⟩).query? 0) ∧
    Query.Agree people ((firstPeople.attach .left true [leader]).run 2).1
      ((secondPeople.attach .left true [leader]).run 5).1 := by
  obtain ⟨hrenamed, hprogram, hattached⟩ := Query.independent_of_ids people
  exact ⟨hrenamed _ (SourceId.later_injective 7) _ _ laterPeople_renamed,
    hprogram ledProgram 0 40 0,
    hattached .again 2 5 again_inStep _ _ secondPeople_renamed _ leader_renamed .left true⟩

end RelationalQuery
