/-
  RelationalQuery.Proofs.Failure.Causes — which demand a query fails at.

  Compiling is checking the demands in order and then building the arguments. So an error belongs to
  the first demand that is not met, and each kind of error tells what sort of demand that is.

  Main definition:
    * `Demand.Unmet`: why a demand is not met.

  Main statements:
    * `Query.compile_error_iff`: compiling fails as the first demand that is not met.
    * `Demand.unmet_of_check`: a demand fails for one of these reasons.
    * `Demand.check_required_iff`, `Demand.check_detached_iff`: which demands fail how.
-/

import RelationalQuery.Proofs.Failure.Follows
import RelationalQuery.Proofs.Naming.Stability

namespace RelationalQuery

/-! ## The first demand that is not met -/

/-- Collecting arguments fails only at a name that is bound again. -/
theorem Fragment.collect_error : {chunks : List Chunk} → {start : Arguments} → {e : QueryError} →
    chunks.foldlM Fragment.collect start = .error e → ∃ name, e = .argumentReused name
  | [], _, _, h => by cases h
  | c :: rest, start, e, h => by
      rw [List.foldlM_cons, bind_eq_error] at h
      obtain hcollect | ⟨next, _, hrest⟩ := h
      · unfold Fragment.collect Arguments.append at hcollect
        split at hcollect
        · cases hcollect
        · split at hcollect
          · cases hcollect
          · cases hcollect
            exact ⟨_, rfl⟩
        · cases hcollect
      · exact Fragment.collect_error hrest

/-- Only arguments that clash keep a fragment from being built. -/
theorem Fragment.build_error {a : Fragment} {e : QueryError} (h : a.build = .error e) :
    ∃ name, e = .argumentReused name := by
  rw [build_eq] at h
  obtain harguments | ⟨_, _, hpure⟩ := bind_eq_error.mp h
  · exact Fragment.collect_error harguments
  · cases hpure

/-- What compiles meets its demands. -/
theorem Query.check_of_compile {schema : Schema} {q : Query} {sql : BoundSql}
    (h : q.compile schema = .ok sql) : ∀ d ∈ q.allDemands schema, d.check schema = .ok () := by
  obtain ⟨fragment, hfragment, _⟩ := bind_eq_ok.mp h
  have hfollows := q.fragment_follows schema
  rw [Follows, hfragment] at hfollows
  exact forM_eq_ok.mp hfollows.symm

/-- **Compiling fails as the first demand that is not met**, if it is not the arguments that
clash. -/
theorem Query.compile_error_iff {schema : Schema} {q : Query} {e : QueryError}
    (he : ∀ name, e ≠ .argumentReused name) :
    q.compile schema = .error e ↔ ∃ before d after, q.allDemands schema = before ++ d :: after ∧
      (∀ b ∈ before, b.check schema = .ok ()) ∧ d.check schema = .error e := by
  rw [← forM_eq_error, ← q.fragment_follows schema, Query.compile, bind_eq_error]
  cases hfragment : q.fragment schema with
  | error other =>
      constructor
      · rintro (h | ⟨_, h, _⟩)
        · cases h
          rfl
        · cases h
      · intro h
        cases h
        exact Or.inl rfl
  | ok fragment =>
      constructor
      · rintro (h | ⟨_, _, hbuild⟩)
        · cases h
        · -- A text that is rendered can only clash in its arguments.
          obtain ⟨name, hname⟩ := Fragment.build_error hbuild
          exact absurd hname (he name)
      · intro h
        cases h

/-! ## Which demand fails how -/

/-- Checking columns fails only at a column that its table lacks, or at a table that the schema
lacks. -/
theorem Clauses.checkColumns_error {schema : Schema} {table : Option String}
    {columns : List String} {e : QueryError}
    (h : Clauses.checkColumns schema table columns = .error e) :
    (∃ table column known, e = .missingColumn table column known) ∨
      ∃ table, e = .noSuchTable table := by
  unfold Clauses.checkColumns at h
  split at h
  · cases h
  · obtain hknown | ⟨_, _, hfind⟩ := bind_eq_error.mp h
    · unfold Schema.columns at hknown
      split at hknown
      · cases hknown
      · cases hknown
        exact Or.inr ⟨_, rfl⟩
    · split at hfind
      · cases hfind
        exact Or.inl ⟨_, _, _, rfl⟩
      · cases hfind

/-- So does checking both sides of a mapping. -/
theorem Clauses.checkMapping_error {schema : Schema} {left right : Clauses.Anchor}
    {mapping : List (String × String)} {e : QueryError}
    (h : Clauses.checkMapping schema left right mapping = .error e) :
    (∃ table column known, e = .missingColumn table column known) ∨
      ∃ table, e = .noSuchTable table := by
  obtain hleft | ⟨_, _, hright⟩ := bind_eq_error.mp h
  · exact Clauses.checkColumns_error hleft
  · exact Clauses.checkColumns_error hright

/-- Why a demand is not met, and as which error. Where a join stands is looked at before its
mapping. -/
inductive Demand.Unmet (schema : Schema) : Demand → QueryError → Prop
  | naming (outer : List String) (os : List Occurrence) (name : String) :
      Unmet schema (.naming outer os) (.duplicateAlias name)
  | reference {chain : List Frame} {source : SourceId} (hscope : ¬InScope chain source)
      (hnamed : ¬NamedTogether chain source) (column : String) :
      Unmet schema (.reference chain source column) (.detachedSource column)
  | place {placed : PlacedJoin} (h : placed.Misplaced) :
      Unmet schema (.join placed) (.requiredAfterOptional placed.relation.name)
  | table {placed : PlacedJoin} (h : ¬placed.Misplaced) (name : String) :
      Unmet schema (.join placed) (.noSuchTable name)
  | column {placed : PlacedJoin} (h : ¬placed.Misplaced) {table : Option String} {column : String}
      {known : List String}
      (hmapping : Clauses.checkMapping schema placed.left (Clauses.anchor placed.relation.target)
        placed.relation.mapping = .error (.missingColumn table column known)) :
      Unmet schema (.join placed) (.missingColumn table column known)

/-- A check fails with an error of the kind that its demand has. -/
theorem Demand.unmet_of_check {schema : Schema} {d : Demand} {e : QueryError}
    (h : d.check schema = .error e) : d.Unmet schema e := by
  cases d with
  | naming outer os =>
      obtain hresolve | ⟨_, _, hpure⟩ := bind_eq_error.mp h
      · obtain ⟨name, rfl⟩ := Naming.duplicateAlias_of_resolve hresolve
        exact .naming outer os name
      · cases hpure
  | reference chain source column =>
      rw [Demand.check] at h
      split at h
      · cases h
      · rename_i hunknown
        cases h
        obtain ⟨hscope, hnamed⟩ := not_or.mp hunknown
        exact .reference hscope hnamed column
  | join placed =>
      obtain hrequired | ⟨_, hrequired, hmapping⟩ := bind_eq_error.mp h
      · unfold Clauses.checkRequired at hrequired
        split at hrequired
        · rename_i hmisplaced
          cases hrequired
          exact .place ⟨hmisplaced.2, of_decide_eq_true hmisplaced.1⟩
        · cases hrequired
      · -- The place is checked first, so it is right when the mapping is at fault.
        have hplaced : ¬placed.Misplaced := by
          rintro ⟨hkind, habove⟩
          rw [Clauses.checkRequired, if_pos ⟨decide_eq_true habove, hkind⟩] at hrequired
          cases hrequired
        obtain ⟨_, _, _, rfl⟩ | ⟨name, rfl⟩ := Clauses.checkMapping_error hmapping
        · exact .column hplaced hmapping
        · exact .table hplaced name

/-- Only a required join below an optional one is refused as such. -/
theorem Demand.check_required_iff {schema : Schema} {d : Demand} {name : String} :
    d.check schema = .error (.requiredAfterOptional name) ↔
      ∃ placed, d = .join placed ∧ placed.Misplaced ∧ placed.relation.name = name := by
  constructor
  · intro h
    cases Demand.unmet_of_check h with
    | place hmisplaced => exact ⟨_, rfl, hmisplaced, rfl⟩
  · rintro ⟨placed, rfl, ⟨hkind, habove⟩, rfl⟩
    rw [Demand.check, Clauses.checkRequired, if_pos ⟨decide_eq_true habove, hkind⟩]
    rfl

/-- Only a reference to a source that no FROM clause around knows is detached. -/
theorem Demand.check_detached_iff {schema : Schema} {d : Demand} {column : String} :
    d.check schema = .error (.detachedSource column) ↔
      ∃ chain source, d = .reference chain source column ∧ ¬InScope chain source ∧
        ¬NamedTogether chain source := by
  constructor
  · intro h
    cases Demand.unmet_of_check h with
    | reference hscope hnamed => exact ⟨_, _, rfl, hscope, hnamed⟩
  · rintro ⟨chain, source, rfl, hscope, hnamed⟩
    rw [Demand.check, if_neg (not_or.mpr ⟨hscope, hnamed⟩)]

end RelationalQuery
