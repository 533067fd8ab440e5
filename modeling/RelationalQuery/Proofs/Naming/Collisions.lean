/-
  RelationalQuery.Proofs.Naming.Collisions — which names are kept, and which number a name gets.

  The names that stay as they were asked for are settled first; the others are numbered group after
  group, and each gets the least number that is above those of its group and gives a name that
  nobody has. So numbered names differ from all others.

  Main definitions:
    * `Keeps`: the leaf keeps the name that it asks for.
    * `Numbered`, `Numbered.Free`, `InTurn`: numbers, and the rule by which they are given.
    * `numbering`: the leaves that are numbered, with their numbers.

  Main statements:
    * `nextIndex_isLeast`: the search finds the least free number.
    * `numbering_inTurn`, `numbering_leaves`: every number follows the rule, and who has one.
-/

import Mathlib.Data.List.Nodup
import Mathlib.Order.Bounds.Defs
import RelationalQuery.Proofs.Naming.Choice

namespace RelationalQuery.Naming

/-! ## The least free number -/

/-- **The search for a number finds the least one** from `start` on that gives a free name. -/
theorem nextIndex_isLeast (taken : List String) (name : String) (start : Nat) :
    IsLeast {index | start ≤ index ∧ Identifier.fold (numberedName name index) ∉ taken}
      (nextIndex taken name start) := by
  have hfree := fold_nextIndex_not_mem taken name start
  unfold nextIndex at hfree ⊢
  cases hfind : (List.range' start (taken.length + 1)).find? fun index =>
      decide (Identifier.fold (numberedName name index) ∉ taken) with
  | none =>
      rw [hfind] at hfree
      refine absurd ?_ (not_all_taken taken name start)
      intro index hindex
      simpa using List.find?_eq_none.mp hfind index hindex
  | some index =>
      rw [hfind] at hfree
      obtain ⟨_, hmem, hbefore⟩ := List.find?_range'_eq_some.mp hfind
      refine ⟨⟨(List.mem_range'_1.mp hmem).1, hfree⟩, ?_⟩
      rintro other ⟨hstart, hother⟩
      -- A free number before the one found would have been found instead.
      by_contra hlt
      have htaken := hbefore other hstart (Nat.lt_of_not_le hlt)
      simp only [Bool.not_eq_true', decide_eq_false_iff_not, not_not] at htaken
      exact hother htaken

/-! ## Numbers given in turn -/

/-- A leaf with the number that is added to its name. -/
structure Numbered where
  leaf : Occurrence
  index : Nat

namespace Numbered

/-- The name with the number. -/
def name (n : Numbered) : String := numberedName (n.leaf.name.getD "") n.index

/-- What the name is compared by. -/
def key (n : Numbered) : String := Identifier.fold n.name

/-- The new name of the leaf's source. -/
def entry (n : Numbered) : SourceId × String := (n.leaf.id, n.name)

/-- The number can be given after those before: it is above the earlier numbers of its group, and
the name is neither taken from the outset nor given to an earlier leaf. -/
structure Free (taken : List String) (before : List Numbered) (n : Numbered) : Prop where
  above : ∀ p ∈ before, p.leaf.key? = n.leaf.key? → p.index < n.index
  untaken : n.key ∉ taken
  unused : ∀ p ∈ before, p.key ≠ n.key

end Numbered

/-- Each number is the least that can be given after those before it. -/
def InTurn (taken : List String) (before numbering : List Numbered) : Prop :=
  ∀ earlier n later, numbering = earlier ++ n :: later →
    IsLeast {index | Numbered.Free taken (before ++ earlier) ⟨n.leaf, index⟩} n.index

namespace InTurn

variable {taken : List String} {before : List Numbered}

/-- No numbers are in turn. -/
theorem nil : InTurn taken before [] := by
  intro earlier n later h
  cases earlier <;> cases h

/-- A first number that is the least free one can be put in front of numbers in turn. -/
theorem cons {n : Numbered} {rest : List Numbered}
    (hleast : IsLeast {index | Numbered.Free taken before ⟨n.leaf, index⟩} n.index)
    (hrest : InTurn taken (before ++ [n]) rest) : InTurn taken before (n :: rest) := by
  intro earlier m later h
  cases earlier with
  | nil =>
      cases h
      rwa [List.append_nil]
  | cons first earlier =>
      cases h
      have hm := hrest earlier m later rfl
      rwa [List.append_assoc] at hm

/-- Numbers in turn can be followed by numbers that are in turn behind them. -/
theorem append {a b : List Numbered} (ha : InTurn taken before a)
    (hb : InTurn taken (before ++ a) b) : InTurn taken before (a ++ b) := by
  intro earlier n later h
  -- The number belongs to the second part, or to the first.
  obtain ⟨rest, rfl, hlater⟩ | ⟨rest, rfl, hearlier⟩ := List.append_eq_append_iff.mp h
  · have hn := hb rest n later hlater
    rwa [List.append_assoc] at hn
  · cases rest with
    | nil =>
        have hn := hb [] n later hearlier.symm
        simpa only [List.append_nil] using hn
    | cons m rest =>
        cases hearlier
        exact ha earlier n rest rfl

/-- A name that is given in turn is none of those that are taken from the outset. -/
theorem free {numbering : List Numbered} (h : InTurn taken before numbering) {n : Numbered}
    (hn : n ∈ numbering) : n.key ∉ taken := by
  obtain ⟨earlier, later, rfl⟩ := List.append_of_mem hn
  exact (h earlier n later rfl).1.untaken

/-- Numbers that are given in turn make different names. -/
theorem nodup_keys {numbering : List Numbered} (h : InTurn taken before numbering) :
    (numbering.map (·.key)).Nodup := by
  refine List.pairwise_map.mpr (List.pairwise_iff_getElem.mpr ?_)
  intro i j hi hj hlt
  have hsplit : numbering = numbering.take j ++ numbering[j] :: numbering.drop (j + 1) := by
    rw [List.getElem_cons_drop, List.take_append_drop]
  refine (h _ _ _ hsplit).1.unused _ (List.mem_append_right _ ?_)
  exact List.mem_take_iff_getElem.mpr ⟨i, by omega, rfl⟩

end InTurn

/-! ## The numbers of groups -/

/-- The members of one group with the numbers that they get from `start` on. -/
def indexGroup (taken : List String) (start : Nat) : List Occurrence → List Numbered
  | [] => []
  | o :: rest =>
    let n : Numbered := ⟨o, nextIndex taken (o.name.getD "") start⟩
    n :: indexGroup (n.key :: taken) (n.index + 1) rest

/-- The members of group after group, each group numbered from zero. -/
def indexGroups (taken : List String) : List (List Occurrence) → List Numbered
  | [] => []
  | members :: rest =>
    let own := indexGroup taken 0 members
    own ++ indexGroups ((own.map (·.key)).reverse ++ taken) rest

/-- Numbering a group gives the entries of its indexed members, and takes their keys. -/
theorem numberGroup_eq : (members : List Occurrence) → (taken : List String) → (start : Nat) →
    numberGroup taken start members =
      ((indexGroup taken start members).map (·.entry),
        ((indexGroup taken start members).map (·.key)).reverse ++ taken)
  | [], _, _ => rfl
  | o :: rest, taken, start => by
      simp only [numberGroup, indexGroup, numberGroup_eq rest, List.map_cons, List.reverse_cons,
        List.append_assoc, List.singleton_append]
      rfl

/-- Numbering group after group gives the entries of the indexed members of all groups. -/
theorem numberGroups_eq : (groups : List (List Occurrence)) → (taken : List String) →
    numberGroups taken groups = (indexGroups taken groups).map (·.entry)
  | [], _ => rfl
  | members :: rest, taken => by
      rw [numberGroups, numberGroup_eq]
      simp only [indexGroups, List.map_append, numberGroups_eq rest]

/-- Each member of a group gets a number, in its order. -/
theorem indexGroup_leaves : (members : List Occurrence) → (taken : List String) →
    (start : Nat) → (indexGroup taken start members).map (·.leaf) = members
  | [], _, _ => rfl
  | o :: rest, taken, start => by
      simp only [indexGroup, List.map_cons, indexGroup_leaves rest]

/-- Each member of each group gets a number, in its order. -/
theorem indexGroups_leaves : (groups : List (List Occurrence)) → (taken : List String) →
    (indexGroups taken groups).map (·.leaf) = groups.flatten
  | [], _ => rfl
  | members :: rest, taken => by
      simp only [indexGroups, List.map_append, indexGroup_leaves, indexGroups_leaves rest,
        List.flatten_cons]

section Turns

variable {taken used : List String} {before : List Numbered}

/-- The names in use behind further numbers are those from before and the numbered ones. -/
theorem mem_used_append (hused : ∀ k, k ∈ used ↔ k ∈ taken ∨ ∃ p ∈ before, p.key = k)
    (own : List Numbered) (k : String) :
    k ∈ (own.map (·.key)).reverse ++ used ↔ k ∈ taken ∨ ∃ p ∈ before ++ own, p.key = k := by
  simp only [List.mem_append, List.mem_reverse, List.mem_map, hused]
  constructor
  · rintro (⟨p, hp, hpkey⟩ | htaken | ⟨p, hp, hpkey⟩)
    · exact Or.inr ⟨p, Or.inr hp, hpkey⟩
    · exact Or.inl htaken
    · exact Or.inr ⟨p, Or.inl hp, hpkey⟩
  · rintro (htaken | ⟨p, hp | hp, hpkey⟩)
    · exact Or.inr (Or.inl htaken)
    · exact Or.inr (Or.inr ⟨p, hp, hpkey⟩)
    · exact Or.inl ⟨p, hp, hpkey⟩

/-- What a number has to be, by the names in use and the bound from which it is searched. -/
theorem free_iff {o : Occurrence} {key : String} (hkey : o.key? = some key) {start : Nat}
    (hused : ∀ k, k ∈ used ↔ k ∈ taken ∨ ∃ p ∈ before, p.key = k)
    (hstart : ∀ i, start ≤ i ↔ ∀ p ∈ before, p.leaf.key? = some key → p.index < i) (i : Nat) :
    Numbered.Free taken before ⟨o, i⟩ ↔
      start ≤ i ∧ Identifier.fold (numberedName (o.name.getD "") i) ∉ used := by
  -- What the walk keeps, the taken keys and the next start, says the same as the rule.
  rw [hstart, hused]
  constructor
  · intro h
    refine ⟨fun p hp hpkey => h.above p hp (hpkey.trans hkey.symm), ?_⟩
    rintro (htaken | ⟨p, hp, hpkey⟩)
    · exact h.untaken htaken
    · exact h.unused p hp hpkey
  · rintro ⟨habove, hnot⟩
    exact ⟨fun p hp hpkey => habove p hp (hpkey.trans hkey), fun h => hnot (Or.inl h),
      fun p hp hpkey => hnot (Or.inr ⟨p, hp, hpkey⟩)⟩

/-- The numbers of one group are given in turn. What is used are the names taken from the outset
and those given before; the search starts above the earlier numbers of the group. -/
theorem indexGroup_inTurn {key : String} : (members : List Occurrence) → (used : List String) →
    (start : Nat) → (before : List Numbered) → (∀ o ∈ members, o.key? = some key) →
    (∀ k, k ∈ used ↔ k ∈ taken ∨ ∃ p ∈ before, p.key = k) →
    (∀ i, start ≤ i ↔ ∀ p ∈ before, p.leaf.key? = some key → p.index < i) →
    InTurn taken before (indexGroup used start members)
  | [], _, _, _, _, _, _ => .nil
  | o :: rest, used, start, before, hkeys, hused, hstart => by
      obtain ⟨hkey, hrest⟩ := List.forall_mem_cons.mp hkeys
      -- The search gives the least free number from the start on.
      have hleast := nextIndex_isLeast used (o.name.getD "") start
      generalize hindex : nextIndex used (o.name.getD "") start = index at hleast
      simp only [indexGroup, hindex]
      refine .cons ?_ (indexGroup_inTurn rest _ _ _ hrest (mem_used_append hused [_]) ?_)
      · simpa only [free_iff hkey hused hstart] using hleast
      · -- The new number is above all earlier ones of the group, so it alone is the new bound.
        intro i
        constructor
        · intro hi p hp hpkey
          obtain hp | hp := List.mem_append.mp hp
          · have hbelow := (hstart index).mp hleast.1.1 p hp hpkey
            exact Nat.lt_trans hbelow hi
          · cases List.mem_singleton.mp hp
            exact hi
        · intro hi
          exact hi _ (List.mem_append_right _ (List.mem_singleton_self _)) hkey

/-- The numbers of different groups are given in turn. -/
theorem indexGroups_inTurn {members : String → List Occurrence}
    (hmembers : ∀ key, ∀ o ∈ members key, o.key? = some key) : (keys : List String) →
    (used : List String) → (before : List Numbered) → keys.Nodup →
    (∀ k, k ∈ used ↔ k ∈ taken ∨ ∃ p ∈ before, p.key = k) →
    (∀ p ∈ before, ∀ key ∈ keys, p.leaf.key? ≠ some key) →
    InTurn taken before (indexGroups used (keys.map members))
  | [], _, _, _, _, _ => .nil
  | key :: rest, used, before, hnodup, hused, hapart => by
      obtain ⟨hkey, hnodup⟩ := List.nodup_cons.mp hnodup
      have hown : InTurn taken before (indexGroup used 0 (members key)) := by
        refine indexGroup_inTurn _ _ _ _ (hmembers key) hused fun i => ?_
        refine iff_of_true (Nat.zero_le i) fun p hp hpkey => ?_
        exact absurd hpkey (hapart p hp key (List.mem_cons_self ..))
      refine .append hown
        (indexGroups_inTurn hmembers rest _ _ hnodup (mem_used_append hused _) ?_)
      -- Other groups have other keys, so the numbers from before do not bound theirs.
      intro p hp other hother
      obtain hp | hp := List.mem_append.mp hp
      · exact hapart p hp other (List.mem_cons_of_mem _ hother)
      · have hleaf : p.leaf ∈ members key := by
          rw [← indexGroup_leaves (members key) used 0]
          exact List.mem_map_of_mem hp
        rw [hmembers key _ hleaf]
        rintro h
        cases h
        exact hkey hother

end Turns

/-! ## Distinct leaves -/

/-- No key is listed twice. -/
theorem nodup_distinctKeys : (keys : List String) → (distinctKeys keys).Nodup
  | [] => List.nodup_nil
  | key :: rest => by
      rw [distinctKeys, List.nodup_cons, List.mem_filter, decide_eq_true_eq]
      exact ⟨fun h => h.2 rfl, (nodup_distinctKeys rest).filter _⟩

/-- No leaf is left twice. -/
theorem nodup_distinct : (os : List Occurrence) → (distinct os).Nodup
  | [] => List.nodup_nil
  | o :: rest => by
      rw [distinct, List.nodup_cons, List.mem_filter, decide_eq_true_eq]
      exact ⟨fun h => h.2 rfl, (nodup_distinct rest).filter _⟩

variable {outer : List String} {os : List Occurrence} {naming : Naming} {o p : Occurrence}
  {key : String}

/-- The members of a group are the leaves that ask for its key. -/
theorem mem_group : o ∈ group os key ↔ o ∈ os ∧ o.key? = some key := by
  rw [group, List.mem_filter, decide_eq_true_eq]

/-- The explicit members of a group are the leaves that were given its key as an alias. -/
theorem mem_explicitMembers :
    o ∈ explicitMembers os key ↔ (o ∈ os ∧ o.key? = some key) ∧ o.explicit = true := by
  rw [explicitMembers, List.mem_filter, mem_group]

/-- No leaf is an explicit member twice. -/
theorem nodup_explicitMembers (hnodup : os.Nodup) (key : String) :
    (explicitMembers os key).Nodup := (hnodup.filter _).filter _

/-- The key of a group is one that a leaf asks for. -/
theorem exists_of_mem_groupKeys (h : key ∈ groupKeys os) : ∃ o ∈ os, o.key? = some key :=
  List.mem_filterMap.mp ((mem_distinctKeys _ _).mp h)

/-- A list without repetition that is shorter than two has one member at most. -/
theorem eq_of_length_lt_two {α : Type} {as : List α} (h : as.length < 2) {a b : α} (ha : a ∈ as)
    (hb : b ∈ as) : a = b := by
  match as, h with
  | [c], _ => rw [List.mem_singleton.mp ha, List.mem_singleton.mp hb]

/-- A list without repetition in which all are one has at most one member. -/
theorem length_lt_two {α : Type} {as : List α} (hnodup : as.Nodup) (a : α)
    (h : ∀ b ∈ as, b = a) : as.length < 2 := by
  have hsubset : as ⊆ [a] := fun b hb => List.mem_singleton.mpr (h b hb)
  exact Nat.lt_succ_of_le (hnodup.length_le_of_subset hsubset)

/-! ## Kept names -/

/-- The leaf keeps the name that it asks for: it was given as an alias, or no enclosing statement
uses it and no other leaf asks for it. -/
def Keeps (outer : List String) (os : List Occurrence) (o : Occurrence) : Prop :=
  o.explicit = true ∨
    (∀ key ∈ o.key?, key ∉ outer) ∧ ∀ p ∈ os, p.key? = o.key? → p = o

instance : Decidable (Keeps outer os o) := by unfold Keeps; infer_instance

/-- A name that one leaf alone asks for is kept if no enclosing statement uses it. -/
theorem keepsName_of_unique (hnodup : os.Nodup) (houter : key ∉ outer)
    (h : ∀ p ∈ os, p.key? = some key → p = o) : keepsName outer os key = true := by
  rw [keepsName, Bool.or_eq_true, decide_eq_true_eq]
  refine Or.inl ⟨length_lt_two (hnodup.filter _) o fun p hp => ?_, houter⟩
  obtain ⟨hpmem, hpkey⟩ := mem_group.mp hp
  exact h p hpmem hpkey

/-- Among different leaves, those of a group that do not keep their names are the derived members
of a group that is not kept as a whole. -/
theorem filter_group_not_keeps (outer : List String) (hnodup : os.Nodup) (key : String) :
    (group os key).filter (fun o => !decide (Keeps outer os o)) =
      if keepsName outer os key then [] else derivedMembers os key := by
  split
  · rename_i hkeeps
    rw [List.filter_eq_nil_iff]
    intro o ho
    obtain ⟨hmem, hkey⟩ := mem_group.mp ho
    simp only [Bool.not_eq_true', decide_eq_false_iff_not, not_not]
    rw [keepsName, Bool.or_eq_true, decide_eq_true_eq, List.isEmpty_iff] at hkeeps
    obtain ⟨hlength, houter⟩ | hempty := hkeeps
    · refine Or.inr ⟨fun other hother => ?_, fun p hp hpkey => ?_⟩
      · rw [hkey] at hother
        cases hother
        exact houter
      · exact eq_of_length_lt_two hlength (mem_group.mpr ⟨hp, hpkey.trans hkey⟩) ho
    · refine Or.inl (Bool.not_eq_false _ ▸ fun hderived => ?_)
      have hmember := mem_derivedMembers.mpr ⟨⟨hmem, hkey⟩, hderived⟩
      rw [hempty] at hmember
      cases hmember
  · rename_i hkeeps
    rw [derivedMembers]
    refine List.filter_congr fun o ho => ?_
    obtain ⟨hmem, hkey⟩ := mem_group.mp ho
    cases hexplicit : o.explicit with
    | true =>
        rw [decide_eq_true (show Keeps outer os o from Or.inl hexplicit)]
    | false =>
        -- Were its name unique and free, the whole group would be kept.
        rw [decide_eq_false]
        rintro (h | ⟨houter, hunique⟩)
        · rw [hexplicit] at h
          cases h
        · have hunique' : ∀ p ∈ os, p.key? = some key → p = o := fun p hp hpkey =>
            hunique p hp (hpkey.trans hkey.symm)
          exact hkeeps (keepsName_of_unique hnodup (houter key hkey) hunique')

/-- The names that stay in use are those of the leaves that keep theirs. -/
theorem staysTaken_iff (hnodup : os.Nodup) (hkey : key ∈ groupKeys os) :
    staysTaken outer os key = true ↔ ∃ o ∈ os, o.key? = some key ∧ Keeps outer os o := by
  obtain ⟨o, ho, hokey⟩ := exists_of_mem_groupKeys hkey
  -- What does not keep its name is the rest of the group, but for the one that does.
  have hfilter := filter_group_not_keeps outer hnodup key
  rw [staysTaken, Bool.or_eq_true]
  constructor
  · rintro (hkeeps | hexplicit)
    · rw [if_pos hkeeps, List.filter_eq_nil_iff] at hfilter
      have hnot := hfilter o (mem_group.mpr ⟨ho, hokey⟩)
      simp only [Bool.not_eq_true', decide_eq_false_iff_not, not_not] at hnot
      exact ⟨o, ho, hokey, hnot⟩
    · obtain ⟨p, hp⟩ := List.exists_mem_of_ne_nil _ (by simpa using hexplicit)
      obtain ⟨⟨hpmem, hpkey⟩, hpexplicit⟩ := mem_explicitMembers.mp hp
      exact ⟨p, hpmem, hpkey, Or.inl hpexplicit⟩
  · rintro ⟨p, hp, hpkey, hexplicit | hunique⟩
    · refine Or.inr ?_
      have hmember := mem_explicitMembers.mpr ⟨⟨hp, hpkey⟩, hexplicit⟩
      rw [Bool.not_eq_true', List.isEmpty_eq_false_iff_exists_mem]
      exact ⟨p, hmember⟩
    · refine Or.inl ?_
      -- A leaf whose name is unique is alone in its group.
      have hunique' : ∀ q ∈ os, q.key? = some key → q = p := fun q hq hqkey =>
        hunique.2 q hq (hqkey.trans hpkey.symm)
      exact keepsName_of_unique hnodup (hunique.1 key hpkey) hunique'

/-! ## The numbering of a statement -/

/-- The names that no number may give: those of enclosing statements and those that are kept. -/
def reserved (outer : List String) (os : List Occurrence) : List String :=
  outer ++ (os.filter fun o => decide (Keeps outer os o)).filterMap (·.key?)

/-- The leaves that are numbered, with their numbers, in the order in which they get them. -/
def numbering (outer : List String) (os : List Occurrence) : List Numbered :=
  indexGroups (outer ++ (groupKeys os).filter (staysTaken outer os))
    (((groupKeys os).filter (!keepsName outer os ·)).map (derivedMembers os))

/-- The new names are those of the numbering. -/
theorem renamed_eq : renamed outer os = (numbering outer os).map (·.entry) := numberGroups_eq _ _

/-- A key is reserved when it is used outside, or when a leaf that keeps its name asks for it. -/
theorem mem_reserved : key ∈ reserved outer os ↔
    key ∈ outer ∨ ∃ o ∈ os, Keeps outer os o ∧ o.key? = some key := by
  rw [reserved, List.mem_append, List.mem_filterMap]
  simp only [List.mem_filter, decide_eq_true_eq, and_assoc]

/-- The reserved keys are those used outside and those of groups whose name stays taken. -/
theorem mem_reserved_iff_taken (hnodup : os.Nodup) : key ∈ reserved outer os ↔
    key ∈ outer ++ (groupKeys os).filter (staysTaken outer os) := by
  rw [mem_reserved, List.mem_append, List.mem_filter]
  refine or_congr_right ⟨?_, ?_⟩
  · rintro ⟨o, ho, hkeeps, hokey⟩
    have hkey := mem_groupKeys ho hokey
    exact ⟨hkey, (staysTaken_iff hnodup hkey).mpr ⟨o, ho, hokey, hkeeps⟩⟩
  · rintro ⟨hkey, hstays⟩
    obtain ⟨o, ho, hokey, hkeeps⟩ := (staysTaken_iff hnodup hkey).mp hstays
    exact ⟨o, ho, hkeeps, hokey⟩

/-- **Who is numbered**: group after group, in order, the leaves that do not keep their names. -/
theorem numbering_leaves (hnodup : os.Nodup) : (numbering outer os).map (·.leaf) =
    (groupKeys os).flatMap fun key =>
      (group os key).filter fun o => !decide (Keeps outer os o) := by
  simp only [filter_group_not_keeps outer hnodup]
  rw [numbering, indexGroups_leaves, ← List.flatMap_def]
  induction groupKeys os with
  | nil => rfl
  | cons key rest ih =>
      rw [List.flatMap_cons, ← ih, List.filter_cons]
      cases keepsName outer os key <;> rfl

/-- **Every number is the least** that is above the earlier ones of its group and gives a name that
is neither reserved nor given before. -/
theorem numbering_inTurn (outer : List String) (hnodup : os.Nodup) :
    InTurn (reserved outer os) [] (numbering outer os) := by
  refine indexGroups_inTurn (fun key o ho => ?_) _ _ _ ((nodup_distinctKeys _).filter _) ?_ ?_
  · exact (mem_derivedMembers.mp ho).1.2
  · intro k
    rw [mem_reserved_iff_taken hnodup]
    simp
  · intro p hp
    cases hp

/-- The numbered leaves are those that ask for a name and do not keep it. -/
theorem mem_numbering_leaves (hnodup : os.Nodup) :
    o ∈ (numbering outer os).map (·.leaf) ↔
      o ∈ os ∧ (∃ key, o.key? = some key) ∧ ¬Keeps outer os o := by
  rw [numbering_leaves hnodup, List.mem_flatMap]
  simp only [List.mem_filter, mem_group, Bool.not_eq_true', decide_eq_false_iff_not]
  constructor
  · rintro ⟨key, _, ⟨ho, hkey⟩, hkeeps⟩
    exact ⟨ho, ⟨key, hkey⟩, hkeeps⟩
  · rintro ⟨ho, ⟨key, hkey⟩, hkeeps⟩
    exact ⟨key, mem_groupKeys ho hkey, ⟨ho, hkey⟩, hkeeps⟩

/-- No leaf is numbered twice. -/
theorem nodup_numbering_leaves (outer : List String) (hnodup : os.Nodup) :
    ((numbering outer os).map (·.leaf)).Nodup := by
  rw [numbering_leaves hnodup, List.nodup_flatMap]
  refine ⟨fun key _ => (hnodup.filter _).filter _, ?_⟩
  refine (nodup_distinctKeys _).imp fun {key other} hne o ho hother => hne ?_
  have hkey := (mem_group.mp (List.mem_filter.mp ho).1).2
  have hokey := (mem_group.mp (List.mem_filter.mp hother).1).2
  exact Option.some.inj (hkey.symm.trans hokey)

end RelationalQuery.Naming
