/-
  RelationalQuery.Proofs.Naming.Numbering — numbered names are free.

  A name that cannot stay as it was asked for gets a number. The candidates of one name differ
  from each other also after folding, because the digits of a number have no case; so among one
  candidate more than there are taken names, one is free, and the search always finds it.

  Main statements:
    * `Naming.fold_nextIndex_not_mem`: the chosen number gives a name that is not taken.
    * `Naming.numberGroups_free`: no numbered name is among the names taken before.
    * `Naming.numberGroups_ids`: exactly the members of the groups are numbered.
-/

import RelationalQuery.Scope.Naming

namespace RelationalQuery

/-! ## Folding -/

namespace Identifier

/-- Folding takes each character to lower case. -/
theorem toList_fold (name : String) : (fold name).toList = name.toList.map Char.toLower :=
  String.toList_ofList

/-- Folding goes through concatenation. -/
theorem toList_fold_append (a b : String) :
    (fold (a ++ b)).toList = (fold a).toList ++ (fold b).toList := by
  rw [toList_fold, toList_fold, toList_fold, String.toList_append, List.map_append]

/-- A digit has no case. -/
theorem toLower_of_isDigit {c : Char} (h : c.isDigit = true) : c.toLower = c := by
  have hle : c.val ≤ '9'.val := by
    simp only [Char.isDigit, Bool.and_eq_true, decide_eq_true_eq] at h
    exact h.2
  have hnot : ¬('A'.val ≤ c.val ∧ c.val ≤ 'Z'.val) := by
    intro hupper
    exact absurd (UInt32.le_trans hupper.1 hle) (by decide)
  unfold Char.toLower
  rw [dif_neg]
  exact hnot

/-- The digits of a number have no case. -/
theorem toList_fold_toString (n : Nat) : (fold (toString n)).toList = Nat.toDigits 10 n := by
  rw [toList_fold, Nat.toString_eq_ofList_toDigits, String.toList_ofList]
  have hdigits : ∀ c ∈ Nat.toDigits 10 n, c.toLower = c := fun c hc =>
    toLower_of_isDigit (Nat.isDigit_of_mem_toDigits (by decide) (by decide) hc)
  exact (List.map_congr_left hdigits).trans (List.map_id _)

end Identifier

namespace Naming

/-! ## One number -/

/-- The candidates of a name differ after folding. -/
theorem fold_numberedName_injective {name : String} {i j : Nat}
    (h : Identifier.fold (numberedName name i) = Identifier.fold (numberedName name j)) :
    i = j := by
  have hlist := congrArg String.toList h
  unfold numberedName at hlist
  rw [Identifier.toList_fold_append, Identifier.toList_fold_append] at hlist
  have hdigits := List.append_cancel_left hlist
  rw [Identifier.toList_fold_toString, Identifier.toList_fold_toString] at hdigits
  have hnum := congrArg (fun digits => Nat.ofDigitChars 10 digits 0) hdigits
  simpa only [Nat.ofDigitChars_ten_toDigits] using hnum

/-- More candidates than taken names cannot all be taken. -/
theorem not_all_taken (taken : List String) (name : String) (start : Nat) :
    ¬∀ index ∈ List.range' start (taken.length + 1),
      Identifier.fold (numberedName name index) ∈ taken := by
  intro hall
  -- Were they all taken, the taken names would contain more different names than they are.
  let candidates := (List.range' start (taken.length + 1)).map fun index =>
    Identifier.fold (numberedName name index)
  have hindexes : (List.range' start (taken.length + 1)).Nodup := List.nodup_range' 1
  have hnodup : candidates.Nodup := by
    refine List.pairwise_map.mpr (hindexes.imp ?_)
    intro i j hne hsame
    exact hne (fold_numberedName_injective hsame)
  have hsubset : candidates ⊆ taken := by
    intro key hkey
    obtain ⟨index, hindex, rfl⟩ := List.mem_map.mp hkey
    exact hall index hindex
  have hlength := hnodup.length_le_of_subset hsubset
  simp only [candidates, List.length_map, List.length_range'] at hlength
  omega

/-- **The search for a number finds a free one.** -/
theorem fold_nextIndex_not_mem (taken : List String) (name : String) (start : Nat) :
    Identifier.fold (numberedName name (nextIndex taken name start)) ∉ taken := by
  unfold nextIndex
  cases hfind : (List.range' start (taken.length + 1)).find? fun index =>
      decide (Identifier.fold (numberedName name index) ∉ taken) with
  | none =>
      refine absurd ?_ (not_all_taken taken name start)
      intro index hindex
      simpa using List.find?_eq_none.mp hfind index hindex
  | some index => simpa using List.find?_some hfind

/-! ## Groups of numbers -/

/-- What is taken only grows while a group is numbered. -/
theorem subset_numberGroup : (members : List Occurrence) → (taken : List String) →
    (start : Nat) → taken ⊆ (numberGroup taken start members).2
  | [], _, _ => fun _ h => h
  | _ :: rest, _, _ => fun _ hkey =>
      subset_numberGroup rest _ _ (List.mem_cons_of_mem _ hkey)

/-- The members of a group are numbered in order. -/
theorem numberGroup_ids : (members : List Occurrence) → (taken : List String) → (start : Nat) →
    (numberGroup taken start members).1.map (·.1) = members.map (·.id)
  | [], _, _ => rfl
  | _ :: rest, _, _ => by
      simp only [numberGroup, List.map_cons, numberGroup_ids rest]

/-- No name that is given to a group is one that was taken before. -/
theorem numberGroup_free : (members : List Occurrence) → (taken : List String) →
    (start : Nat) → ∀ entry ∈ (numberGroup taken start members).1,
      Identifier.fold entry.2 ∉ taken
  | [], _, _ => fun entry h => absurd h List.not_mem_nil
  | o :: rest, taken, start => by
      intro entry hentry
      simp only [numberGroup, List.mem_cons] at hentry
      rcases hentry with rfl | hrest
      · exact fold_nextIndex_not_mem taken _ start
      · -- The rest is numbered with the new name taken as well, so all the more without it.
        intro htaken
        exact numberGroup_free rest _ _ entry hrest (List.mem_cons_of_mem _ htaken)

/-- The ids that get a number are those of the members, group after group. -/
theorem numberGroups_ids : (groups : List (List Occurrence)) → (taken : List String) →
    (numberGroups taken groups).map (·.1) = groups.flatten.map (·.id)
  | [], _ => rfl
  | members :: rest, taken => by
      simp only [numberGroups, List.map_append, List.flatten_cons, numberGroup_ids,
        numberGroups_ids rest]

/-- **A numbered name is free**: it is none of the names taken before any group is numbered. -/
theorem numberGroups_free : (groups : List (List Occurrence)) → (taken : List String) →
    ∀ entry ∈ numberGroups taken groups, Identifier.fold entry.2 ∉ taken
  | [], _ => fun entry h => absurd h List.not_mem_nil
  | members :: rest, taken => by
      intro entry hentry
      simp only [numberGroups, List.mem_append] at hentry
      rcases hentry with hown | hrest
      · exact numberGroup_free members taken 0 entry hown
      · intro htaken
        exact numberGroups_free rest _ entry hrest (subset_numberGroup members taken 0 htaken)

end Naming

end RelationalQuery
