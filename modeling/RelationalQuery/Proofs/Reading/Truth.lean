/-
  RelationalQuery.Proofs.Reading.Truth — the logic of three truth values.

  A conjunction is false beside a false condition, and otherwise unknown beside an unknown one; a
  disjunction goes the other way around, and a negation leaves the unknown as it is.

  Main statements:
    * `Sql.Truth.all_flatten`, `Sql.Truth.all_append`: conjunctions of conjunctions.
    * `Sql.Truth.all_map_negatedIf`: the negation of a disjunction.
-/

import RelationalQuery.Proofs.Execution.Engine

namespace RelationalQuery.Sql.Truth

/-! ## Negation -/

/-- Negating twice gives the truth back. -/
theorem negatedIf_negatedIf (t : Truth) : negatedIf true (negatedIf true t) = t := by
  cases t with
  | none => rfl
  | some b => cases b <;> rfl

/-- A truth is negated in a list just when it is in the list. -/
theorem mem_map_negatedIf {ts : List Truth} {t : Truth} :
    negatedIf true t ∈ ts.map (negatedIf true) ↔ t ∈ ts := by
  constructor
  · intro h
    obtain ⟨u, hu, heq⟩ := List.mem_map.mp h
    rwa [← negatedIf_negatedIf t, ← heq, negatedIf_negatedIf]
  · exact List.mem_map_of_mem

/-- All negations hold where none of the conditions does. -/
theorem all_map_negatedIf (ts : List Truth) :
    all (ts.map (negatedIf true)) = negatedIf true (any ts) := by
  have htrue : some false ∈ ts.map (negatedIf true) ↔ some true ∈ ts :=
    mem_map_negatedIf (t := some true)
  have hunknown : none ∈ ts.map (negatedIf true) ↔ none ∈ ts := mem_map_negatedIf (t := none)
  simp only [all, any, htrue, hunknown]
  split
  · rfl
  · split <;> rfl

/-! ## Conjunction -/

theorem all_singleton (t : Truth) : all [t] = t := by
  rcases t with _ | _ | _ <;> rfl

theorem any_singleton (t : Truth) : any [t] = t := by
  rcases t with _ | _ | _ <;> rfl

/-- Conditions all hold when all of them do, group by group. -/
theorem all_flatten (groups : List (List Truth)) : all groups.flatten = all (groups.map all) := by
  have hfalse : some false ∈ groups.map all ↔ some false ∈ groups.flatten := by
    rw [List.mem_map, List.mem_flatten]
    refine exists_congr fun ts => and_congr_right fun _ => ?_
    unfold all
    split
    · rename_i h
      exact iff_of_true rfl h
    · rename_i h
      refine iff_of_false (fun heq => ?_) h
      split at heq <;> cases heq
  have hunknown : some false ∉ groups.flatten →
      (none ∈ groups.map all ↔ none ∈ groups.flatten) := by
    intro hno
    rw [List.mem_map, List.mem_flatten]
    refine exists_congr fun ts => and_congr_right fun hts => ?_
    have hts : some false ∉ ts := fun h => hno (List.mem_flatten.mpr ⟨ts, hts, h⟩)
    unfold all
    rw [if_neg hts]
    split
    · rename_i h
      exact iff_of_true rfl h
    · rename_i h
      exact iff_of_false nofun h
  -- A false condition decides everything; without one, the groups are unknown where a term is.
  by_cases hno : some false ∈ groups.flatten
  · rw [all, all, if_pos hno, if_pos (hfalse.mpr hno)]
  · rw [all, all, if_neg hno, if_neg (mt hfalse.mp hno)]
    simp only [hunknown hno]

/-- A conjunction of two lists is that of the two conjunctions. -/
theorem all_append (ts us : List Truth) : all (ts ++ us) = all [all ts, all us] := by
  have h := all_flatten [ts, us]
  rwa [List.flatten_cons, List.flatten_singleton] at h

/-- A conjunction is that of its first term and of the conjunction of the rest. -/
theorem all_cons (t : Truth) (ts : List Truth) : all (t :: ts) = all [t, all ts] := by
  have h := all_append [t] ts
  rwa [all_singleton] at h

/-- A conjunction is that of the conjunction of all but the last term and of that one. -/
theorem all_concat (ts : List Truth) (t : Truth) : all (ts ++ [t]) = all [all ts, t] := by
  rw [all_append, all_singleton]

end RelationalQuery.Sql.Truth
