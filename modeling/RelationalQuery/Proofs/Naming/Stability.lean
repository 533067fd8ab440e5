/-
  RelationalQuery.Proofs.Naming.Stability — a choice of names is complete, and stands when repeated.

  Kept names differ from each other unless two leaves were given one alias, and numbers avoid all
  other names, so the names never clash: a choice fails for that one reason. The names that it gives
  are names that nothing needs to change, so a source whose leaves carry them gets them again.

  Main definitions:
    * `finalName`: the name that a leaf ends with.
    * `ExplicitApart`: no two leaves were given one alias.
    * `Source.relabeled`: the source whose derived names are those of a choice.

  Main statements:
    * `resolve_isOk_iff`, `error_of_resolve`: when a choice succeeds, and how it fails.
    * `finalName_of_keeps`, `finalName_of_numbered`: the names that it gives.
    * `resolve_relabel`: repeating it changes nothing.
    * `Source.resolve_spec`: all of it, for the leaves of a source.
-/

import RelationalQuery.Proofs.Naming.Collisions

namespace RelationalQuery

namespace Naming

/-! ## Final names -/

/-- The name that a leaf ends with: its new name, or else the one that it asks for. -/
def finalName (outer : List String) (os : List Occurrence) (o : Occurrence) : Option String :=
  ((renamed outer os).lookup o.id).or o.name

/-- No two leaves were given one alias, ASCII case aside. -/
def ExplicitApart (os : List Occurrence) : Prop :=
  ∀ o ∈ os, ∀ p ∈ os, o.explicit = true → p.explicit = true →
    ∀ m ∈ o.name, ∀ n ∈ p.name, Identifier.Same m n → o = p

variable {outer : List String} {os : List Occurrence} {naming : Naming} {o p : Occurrence}
  {key : String}

/-- The name that a choice gives a leaf is its final name. -/
theorem lookup_eq_finalName (h : resolve outer os = .ok naming) (ho : o ∈ distinct os) :
    naming.lookup o.id = some (finalName outer (distinct os) o) := by
  rw [lookup_of_resolve h, (mem_distinct os o).mp ho, Option.map_some]
  rfl

/-- A new name is a numbered name of the leaf. -/
theorem exists_numbered (ho : o ∈ distinct os) {name : String}
    (h : (renamed outer (distinct os)).lookup o.id = some name) :
    ∃ n ∈ numbering outer (distinct os), n.leaf = o ∧ n.name = name := by
  have hmem := mem_of_lookup h
  rw [renamed_eq, List.mem_map] at hmem
  obtain ⟨n, hn, hentry⟩ := hmem
  have hleaf := (mem_numbering_leaves (nodup_distinct os)).mp (List.mem_map_of_mem hn)
  have hid : n.leaf.id = o.id := congrArg Prod.fst hentry
  exact ⟨n, hn, eq_of_mem_distinct hleaf.1 ho hid, congrArg Prod.snd hentry⟩

/-- **A leaf that keeps its name ends with it.** -/
theorem finalName_of_keeps (ho : o ∈ distinct os) (hkeeps : Keeps outer (distinct os) o) :
    finalName outer (distinct os) o = o.name := by
  unfold finalName
  cases h : (renamed outer (distinct os)).lookup o.id with
  | none => rfl
  | some name =>
      obtain ⟨n, hn, rfl, _⟩ := exists_numbered ho h
      have hleaf := (mem_numbering_leaves (nodup_distinct os)).mp (List.mem_map_of_mem hn)
      exact absurd hkeeps hleaf.2.2

/-- **A leaf that is numbered ends with the numbered name.** -/
theorem finalName_of_numbered {n : Numbered} (hn : n ∈ numbering outer (distinct os)) :
    finalName outer (distinct os) n.leaf = some n.name := by
  have hleaves := nodup_numbering_leaves outer (nodup_distinct os)
  have hleaf := (mem_numbering_leaves (nodup_distinct os)).mp (List.mem_map_of_mem hn)
  have hrenamed : n.leaf.id ∈ (renamed outer (distinct os)).map (·.1) := by
    rw [renamed_eq, List.map_map]
    exact List.mem_map_of_mem hn
  obtain ⟨name, hname⟩ := Option.isSome_iff_exists.mp (lookup_isSome.mpr hrenamed)
  obtain ⟨m, hm, hmleaf, rfl⟩ := exists_numbered hleaf.1 hname
  -- Of the numbered leaves each has one number only.
  cases List.inj_on_of_nodup_map hleaves hm hn hmleaf
  rw [finalName, hname, Option.some_or]

/-- A leaf with a name keeps it or is numbered. -/
theorem finalName_cases (ho : o ∈ distinct os) {name : String}
    (h : finalName outer (distinct os) o = some name) :
    (Keeps outer (distinct os) o ∧ o.name = some name) ∨
      ∃ n ∈ numbering outer (distinct os), n.leaf = o ∧ n.name = name := by
  by_cases hkeeps : Keeps outer (distinct os) o
  · rw [finalName_of_keeps ho hkeeps] at h
    exact Or.inl ⟨hkeeps, h⟩
  · refine Or.inr ?_
    cases hlookup : (renamed outer (distinct os)).lookup o.id with
    | some other =>
        rw [finalName, hlookup] at h
        cases h
        exact exists_numbered ho hlookup
    | none =>
        rw [finalName, hlookup, Option.none_or] at h
        -- The name of a leaf that is not renamed is its own, and its number gives it back.
        have hkey : o.key? = some (Identifier.fold name) := by rw [Occurrence.key?, h]; rfl
        have hleaf := (mem_numbering_leaves (nodup_distinct os)).mpr ⟨ho, ⟨_, hkey⟩, hkeeps⟩
        obtain ⟨n, hn, rfl⟩ := List.mem_map.mp hleaf
        have hname := finalName_of_numbered hn
        rw [finalName, hlookup, Option.none_or, h] at hname
        exact ⟨n, hn, rfl, (Option.some.inj hname).symm⟩

/-- The name of a leaf that keeps it is reserved. -/
theorem fold_mem_reserved (ho : o ∈ distinct os) (hkeeps : Keeps outer (distinct os) o)
    {name : String} (hname : o.name = some name) :
    Identifier.fold name ∈ reserved outer (distinct os) := by
  refine mem_reserved.mpr (Or.inr ⟨o, ho, hkeeps, ?_⟩)
  rw [Occurrence.key?, hname]
  rfl

/-- **Final names are different**, unless two leaves were given one alias. -/
theorem finalName_apart (hexplicit : ExplicitApart (distinct os)) (ho : o ∈ distinct os)
    (hp : p ∈ distinct os) {m n : String} (hm : finalName outer (distinct os) o = some m)
    (hn : finalName outer (distinct os) p = some n) (hsame : Identifier.Same m n) : o = p := by
  -- Either leaf keeps its name or is numbered.
  obtain ⟨hokeeps, homine⟩ | ⟨a, ha, rfl, rfl⟩ := finalName_cases ho hm
  · obtain ⟨hpkeeps, hpmine⟩ | ⟨b, hb, rfl, rfl⟩ := finalName_cases hp hn
    · have hkeys : o.key? = p.key? := by
        rw [Occurrence.key?, Occurrence.key?, homine, hpmine]
        exact congrArg some hsame
      obtain hoexplicit | hounique := hokeeps
      · obtain hpexplicit | hpunique := hpkeeps
        · exact hexplicit o ho p hp hoexplicit hpexplicit m homine n hpmine hsame
        · exact hpunique.2 o ho hkeys
      · exact (hounique.2 p hp hkeys.symm).symm
    · -- A number avoids all names that are kept.
      have hkept := fold_mem_reserved ho hokeeps homine
      rw [show Identifier.fold m = b.key from hsame] at hkept
      exact absurd hkept ((numbering_inTurn outer (nodup_distinct os)).free hb)
  · obtain ⟨hpkeeps, hpmine⟩ | ⟨b, hb, rfl, rfl⟩ := finalName_cases hp hn
    · have hkept := fold_mem_reserved hp hpkeeps hpmine
      rw [show Identifier.fold n = a.key from hsame.symm] at hkept
      exact absurd hkept ((numbering_inTurn outer (nodup_distinct os)).free ha)
    · have hkeys := (numbering_inTurn outer (nodup_distinct os)).nodup_keys
      exact congrArg (·.leaf) (List.inj_on_of_nodup_map hkeys ha hb hsame)

/-! ## When a choice succeeds -/

/-- No two names clash, unless two leaves were given one alias. -/
theorem repeated?_assign (hexplicit : ExplicitApart (distinct os)) :
    repeated? (assign (renamed outer (distinct os)) (distinct os)).names = none := by
  refine repeated?_eq_none.mpr (List.pairwise_filterMap.mpr (List.pairwise_map.mpr ?_))
  refine (nodup_distinct os).imp_of_mem fun {o p} ho hp hne m hm n hn hsame => hne ?_
  exact finalName_apart hexplicit ho hp hm hn hsame

/-- Two members of a group that were given their aliases were given the same. -/
theorem same_of_explicitMembers {o p : Occurrence} (ho : o ∈ explicitMembers os key)
    (hp : p ∈ explicitMembers os key) : ∃ m ∈ o.name, ∃ n ∈ p.name, Identifier.Same m n := by
  obtain ⟨m, hm, hmkey⟩ := Option.map_eq_some_iff.mp (mem_explicitMembers.mp ho).1.2
  obtain ⟨n, hn, hnkey⟩ := Option.map_eq_some_iff.mp (mem_explicitMembers.mp hp).1.2
  exact ⟨m, hm, n, hn, hmkey.trans hnkey.symm⟩

/-- A group passes just when at most one of its members is explicit. -/
theorem checkExplicit_eq_ok :
    checkExplicit os key = .ok () ↔ (explicitMembers os key).length < 2 := by
  unfold checkExplicit
  split
  · rename_i heq
    rw [heq]
    exact iff_of_false (by rintro ⟨⟩) (by simp)
  · rename_i hnot
    refine iff_of_true rfl ?_
    match hmembers : explicitMembers os key with
    | [] => exact Nat.zero_lt_two
    | [_] => exact Nat.one_lt_two
    | first :: second :: rest => exact absurd hmembers (hnot first second rest)

/-- The checks of all groups pass when no two leaves were given one alias. -/
theorem checks_eq_ok_iff (hnodup : os.Nodup) :
    (groupKeys os).forM (checkExplicit os) = .ok () ↔ ExplicitApart os := by
  rw [show (groupKeys os).forM (checkExplicit os) = forM (groupKeys os) (checkExplicit os) from rfl,
    forM_eq_ok]
  simp only [checkExplicit_eq_ok]
  constructor
  · intro h o ho p hp hoexplicit hpexplicit m hm n hn hsame
    have hokey : o.key? = some (Identifier.fold m) := by rw [Occurrence.key?, hm]; rfl
    have hpkey : p.key? = some (Identifier.fold m) := by
      rw [Occurrence.key?, hn, show Identifier.fold m = Identifier.fold n from hsame]
      rfl
    -- Both are explicit members of one group, and it has at most one.
    exact eq_of_length_lt_two (h _ (mem_groupKeys ho hokey))
      (mem_explicitMembers.mpr ⟨⟨ho, hokey⟩, hoexplicit⟩)
      (mem_explicitMembers.mpr ⟨⟨hp, hpkey⟩, hpexplicit⟩)
  · intro h key _
    cases hmembers : explicitMembers os key with
    | nil => exact Nat.zero_lt_two
    | cons first rest =>
        rw [← hmembers]
        -- All members are the same leaf, since no two of them have one alias.
        refine length_lt_two (nodup_explicitMembers hnodup key) first fun p hp => ?_
        have hfirst : first ∈ explicitMembers os key := by
          rw [hmembers]
          exact List.mem_cons_self ..
        obtain ⟨⟨homem, _⟩, hoexplicit⟩ := mem_explicitMembers.mp hfirst
        obtain ⟨⟨hpmem, _⟩, hpexplicit⟩ := mem_explicitMembers.mp hp
        obtain ⟨n, hn, m, hm, hsame⟩ := same_of_explicitMembers hp hfirst
        exact h p hpmem first homem hpexplicit hoexplicit n hn m hm hsame

/-- **A choice succeeds exactly when no two leaves were given one alias.** -/
theorem resolve_isOk_iff :
    (∃ naming, resolve outer os = .ok naming) ↔ ExplicitApart (distinct os) := by
  constructor
  · rintro ⟨naming, h⟩
    exact (checks_eq_ok_iff (nodup_distinct os)).mp (resolve_eq_ok.mp h).1
  · intro hexplicit
    exact ⟨_, resolve_eq_ok.mpr ⟨(checks_eq_ok_iff (nodup_distinct os)).mpr hexplicit, rfl,
      repeated?_assign hexplicit⟩⟩

/-- **A choice fails at two leaves with one alias**, which the error names. -/
theorem error_of_resolve {e : QueryError} (h : resolve outer os = .error e) :
    ∃ o ∈ distinct os, ∃ p ∈ distinct os, o ≠ p ∧ o.explicit = true ∧ p.explicit = true ∧
      ∃ m ∈ o.name, ∃ n ∈ p.name, Identifier.Same m n ∧ e = .duplicateAlias m := by
  have hnodup := nodup_distinct os
  rw [resolve, bind_eq_error] at h
  obtain hgroups | ⟨_, hchecks, hnames⟩ := h
  · obtain ⟨_, key, _, _, _, hkey⟩ := forM_eq_error.mp hgroups
    unfold checkExplicit at hkey
    split at hkey
    · rename_i first second rest hmembers
      cases hkey
      have hfirst : first ∈ explicitMembers (distinct os) key := by rw [hmembers]; simp
      have hsecond : second ∈ explicitMembers (distinct os) key := by rw [hmembers]; simp
      -- The group has no leaf twice, so its first two members differ.
      have hdifferent : first ≠ second := by
        have hboth := nodup_explicitMembers hnodup key
        rw [hmembers] at hboth
        rintro rfl
        exact (List.nodup_cons.mp hboth).1 (List.mem_cons_self ..)
      obtain ⟨⟨homem, _⟩, hoexplicit⟩ := mem_explicitMembers.mp hfirst
      obtain ⟨⟨hpmem, _⟩, hpexplicit⟩ := mem_explicitMembers.mp hsecond
      obtain ⟨m, hm, n, hn, hsame⟩ := same_of_explicitMembers hfirst hsecond
      refine ⟨first, homem, second, hpmem, hdifferent, hoexplicit, hpexplicit, m, hm, n, hn, hsame,
        ?_⟩
      rw [hm]
      rfl
    · cases hkey
  · -- The names themselves never clash.
    simp only [repeated?_assign ((checks_eq_ok_iff hnodup).mp hchecks)] at hnames
    cases hnames

/-- A choice fails only because an alias was given twice. -/
theorem duplicateAlias_of_resolve {e : QueryError} (h : resolve outer os = .error e) :
    ∃ name, e = .duplicateAlias name := by
  obtain ⟨_, _, _, _, _, _, _, name, _, _, _, _, he⟩ := error_of_resolve h
  exact ⟨name, he⟩

/-! ## Repeating a choice -/

/-- The leaf with the name that was chosen for it; an explicit alias stays as it is. -/
def relabelLeaf (naming : Naming) (o : Occurrence) : Occurrence :=
  if o.explicit then o else { o with name := (naming.lookup o.id).join.or o.name }

@[simp] theorem relabelLeaf_id : (relabelLeaf naming o).id = o.id := by
  unfold relabelLeaf
  split <;> rfl

@[simp] theorem relabelLeaf_explicit : (relabelLeaf naming o).explicit = o.explicit := by
  unfold relabelLeaf
  split <;> rfl

/-- Relabeling keeps the ids, so the same leaves stay when later ones of an id are dropped. -/
theorem distinct_relabel : (os : List Occurrence) →
    distinct (os.map (relabelLeaf naming)) = (distinct os).map (relabelLeaf naming)
  | [] => rfl
  | o :: rest => by
      rw [List.map_cons, distinct, distinct, distinct_relabel rest, List.map_cons, List.filter_map]
      simp only [Function.comp_def, relabelLeaf_id]

/-- A leaf carries its final name from then on. -/
theorem name_relabelLeaf (h : resolve outer os = .ok naming) (ho : o ∈ distinct os) :
    (relabelLeaf naming o).name = finalName outer (distinct os) o := by
  have hlookup := lookup_eq_finalName h ho
  unfold relabelLeaf
  split
  · rename_i hexplicit
    exact (finalName_of_keeps ho (Or.inl hexplicit)).symm
  · rw [hlookup, Option.join_some]
    cases hfinal : finalName outer (distinct os) o with
    | some name => rfl
    -- A leaf that ends without a name asked for none.
    | none =>
        rw [Option.none_or]
        exact (Option.or_eq_none_iff.mp hfinal).2

/-- The leaves with their final names all have different names. -/
theorem relabel_apart (h : resolve outer os = .ok naming)
    (ho : o ∈ distinct (os.map (relabelLeaf naming)))
    (hp : p ∈ distinct (os.map (relabelLeaf naming))) {m n : String} (hm : o.name = some m)
    (hn : p.name = some n) (hsame : Identifier.Same m n) : o = p := by
  rw [distinct_relabel] at ho hp
  obtain ⟨a, ha, rfl⟩ := List.mem_map.mp ho
  obtain ⟨b, hb, rfl⟩ := List.mem_map.mp hp
  rw [name_relabelLeaf h ha] at hm
  rw [name_relabelLeaf h hb] at hn
  rw [finalName_apart (resolve_isOk_iff.mp ⟨naming, h⟩) ha hb hm hn hsame]

/-- The leaves with their final names have nothing to change. -/
theorem relabel_keeps (h : resolve outer os = .ok naming)
    (ho : o ∈ distinct (os.map (relabelLeaf naming))) (hkey : o.key? = some key) :
    Keeps outer (distinct (os.map (relabelLeaf naming))) o := by
  obtain ⟨m, hm, rfl⟩ := Option.map_eq_some_iff.mp hkey
  by_cases hderived : o.explicit = true
  · exact Or.inl hderived
  · refine Or.inr ⟨fun other hother => ?_, fun p hp hpkey => ?_⟩
    · -- A chosen name that is no alias is free outside.
      cases hkey.symm.trans hother
      rw [distinct_relabel] at ho
      obtain ⟨a, ha, rfl⟩ := List.mem_map.mp ho
      rw [name_relabelLeaf h ha] at hm
      rw [relabelLeaf_explicit, Bool.not_eq_true] at hderived
      have hlookup := lookup_eq_finalName h ha
      rw [hm] at hlookup
      exact lookup_derived_free h ((mem_distinct os a).mp ha) hderived hlookup
    · obtain ⟨n, hn, hsame⟩ := Option.map_eq_some_iff.mp (hpkey.trans hkey)
      exact relabel_apart h hp ho hn hm hsame

/-- Nothing gets a new name when a choice is repeated. -/
theorem renamed_relabel (h : resolve outer os = .ok naming) :
    renamed outer (distinct (os.map (relabelLeaf naming))) = [] := by
  rw [renamed_eq, List.map_eq_nil_iff, ← List.map_eq_nil_iff (f := (·.leaf)),
    List.eq_nil_iff_forall_not_mem]
  intro o ho
  obtain ⟨hmem, ⟨key, hkey⟩, hnot⟩ := (mem_numbering_leaves (nodup_distinct _)).mp ho
  exact hnot (relabel_keeps h hmem hkey)

/-- **Repeating a choice changes nothing**: leaves that carry the names that were chosen for them
get these names again. -/
theorem resolve_relabel (h : resolve outer os = .ok naming) :
    resolve outer (os.map (relabelLeaf naming)) = .ok naming := by
  obtain ⟨_, hnaming, hrepeated⟩ := resolve_eq_ok.mp h
  refine resolve_eq_ok.mpr ⟨(checks_eq_ok_iff (nodup_distinct _)).mpr ?_, ?_, hrepeated⟩
  · exact fun o ho p hp _ _ m hm n hn hsame => relabel_apart h ho hp hm hn hsame
  · rw [renamed_relabel h, distinct_relabel, assign, List.map_map]
    refine hnaming.trans (List.map_congr_left fun o ho => ?_)
    rw [Function.comp_apply, relabelLeaf_id, List.lookup_nil, Option.none_or,
      name_relabelLeaf h ho]
    rfl

end Naming

/-! ## Sources -/

open Naming

/-- The label of a leaf with the name that was chosen for it, if it was not given one. -/
def Naming.relabel (naming : Naming) (id : SourceId) (label : Option Alias) : Option Alias :=
  if (label.map (·.explicit)).getD false then label
  else ((naming.lookup id).join.map .derived).or label

mutual

/-- The source whose leaves carry the chosen names as derived aliases; the leaves inside its
subqueries do too. -/
def Source.relabeled (naming : Naming) : Source → Source
  | .table id table label => .table id table (naming.relabel id label)
  | .subquery id query label => .subquery id (query.relabeled naming) (naming.relabel id label)
  | .joinTree id left joins => .joinTree id (left.relabeled naming) (Join.relabeledAll naming joins)

/-- The same for joined relations. -/
def Join.relabeledAll (naming : Naming) : List Join → List Join
  | [] => []
  | ⟨included, kind, ⟨name, target, mapping, condition, selection, joins⟩⟩ :: rest =>
    ⟨included, kind, ⟨name, target.relabeled naming, mapping, condition, selection,
      Join.relabeledAll naming joins⟩⟩ :: Join.relabeledAll naming rest

/-- The same for the source of a query. -/
def Query.relabeled (naming : Naming) : Query → Query
  | ⟨selection, distinct, source, filter, groupBy, having, orderings, reversed, limit⟩ =>
    match source with
    | none => ⟨selection, distinct, none, filter, groupBy, having, orderings, reversed, limit⟩
    | some source =>
      ⟨selection, distinct, some (source.relabeled naming), filter, groupBy, having, orderings,
        reversed, limit⟩

end

/-- A leaf with a relabeled label is what naming makes of the leaf. -/
theorem Naming.relabelLeaf_label (naming : Naming) (id : SourceId) (name : Option String)
    (label : Option Alias) :
    (⟨id, ((naming.relabel id label).map (·.name)).or name,
      ((naming.relabel id label).map (·.explicit)).getD false⟩ : Occurrence) =
      naming.relabelLeaf
        ⟨id, (label.map (·.name)).or name, (label.map (·.explicit)).getD false⟩ := by
  unfold relabel relabelLeaf
  split
  · rfl
  · -- Only a derived alias is replaced, and what replaces it is derived again.
    rename_i hderived
    cases (naming.lookup id).join with
    | none => rfl
    | some chosen =>
        rw [Bool.not_eq_true] at hderived
        simp only [Option.map_some, Option.some_or, hderived]
        rfl

mutual

/-- The leaves of a relabeled source are its relabeled leaves. -/
theorem Source.occurrences_relabeled (naming : Naming) : (s : Source) →
    (s.relabeled naming).occurrences = s.occurrences.map naming.relabelLeaf
  | .table id table label => by
      have hleaf := naming.relabelLeaf_label id (some table) label
      simp only [Option.or_some] at hleaf
      exact congrArg (fun leaf => [leaf]) hleaf
  | .subquery id query label => by
      have hleaf := naming.relabelLeaf_label id none label
      simp only [Option.or_none] at hleaf
      rw [Source.relabeled, Source.occurrences, Source.occurrences, List.map_cons,
        Query.occurrences_relabeled naming query]
      exact congrArg (· :: query.occurrences.map naming.relabelLeaf) hleaf
  | .joinTree _ left joins => by
      rw [Source.relabeled, Source.occurrences, Source.occurrences, List.map_append,
        Source.occurrences_relabeled naming left, Join.occurrences_relabeledAll naming joins]

/-- So are those of relabeled joins. -/
theorem Join.occurrences_relabeledAll (naming : Naming) : (joins : List Join) →
    Join.occurrences (Join.relabeledAll naming joins) =
      (Join.occurrences joins).map naming.relabelLeaf
  | [] => rfl
  | ⟨_, _, ⟨_, target, _, _, _, joins⟩⟩ :: rest => by
      rw [Join.relabeledAll, Join.occurrences, Join.occurrences, List.map_append, List.map_append,
        Source.occurrences_relabeled naming target, Join.occurrences_relabeledAll naming joins,
        Join.occurrences_relabeledAll naming rest]

/-- So are those of a relabeled query. -/
theorem Query.occurrences_relabeled (naming : Naming) : (q : Query) →
    (q.relabeled naming).occurrences = q.occurrences.map naming.relabelLeaf
  | ⟨_, _, none, _, _, _, _, _, _⟩ => rfl
  | ⟨_, _, some source, _, _, _, _, _, _⟩ => Source.occurrences_relabeled naming source

end

/-- **The names of a source's leaves.** The choice fails only where two leaves were given one alias,
and says so. Otherwise aliases, and names that are unique and not in use outside, stay; every other
leaf gets the least number that is above those of its group and gives a name that no enclosing
statement, no kept name and no earlier number gives; no leaf without an alias of its own is named
like anything outside; and repeating the choice on the source with these names changes nothing. -/
theorem Source.resolve_spec (enclosing : List String) (s : Source) :
    let outer := enclosing.map Identifier.fold
    let leaves := distinct s.occurrences
    ((∃ naming, Naming.resolve outer s.occurrences = .ok naming) ↔ ExplicitApart leaves) ∧
    (∀ e, Naming.resolve outer s.occurrences = .error e →
      ∃ o ∈ leaves, ∃ p ∈ leaves, o ≠ p ∧ o.explicit = true ∧ p.explicit = true ∧
        ∃ m ∈ o.name, ∃ n ∈ p.name, Identifier.Same m n ∧ e = .duplicateAlias m) ∧
    ∀ naming, Naming.resolve outer s.occurrences = .ok naming →
      (∀ o ∈ leaves, Keeps outer leaves o → naming.lookup o.id = some o.name) ∧
      (∃ numbers : List Numbered,
        numbers.map (·.leaf) = ((groupKeys leaves).flatMap fun key =>
          (group leaves key).filter fun o => !decide (Keeps outer leaves o)) ∧
        InTurn (reserved outer leaves) [] numbers ∧
        ∀ n ∈ numbers, naming.lookup n.leaf.id = some (some n.name)) ∧
      (∀ o ∈ leaves, o.explicit = false → ∀ name, naming.lookup o.id = some (some name) →
        Identifier.fold name ∉ outer) ∧
      Naming.resolve outer (s.relabeled naming).occurrences = .ok naming := by
  intro outer leaves
  refine ⟨resolve_isOk_iff, fun e he => error_of_resolve he, fun naming h => ⟨?_, ?_, ?_, ?_⟩⟩
  · intro o ho hkeeps
    rw [lookup_eq_finalName h ho, finalName_of_keeps ho hkeeps]
  · -- The numbers are those of the groups in turn, so the rule for them is the one for groups.
    have hnodup := nodup_distinct s.occurrences
    refine ⟨numbering outer leaves, numbering_leaves hnodup, numbering_inTurn _ hnodup, ?_⟩
    intro n hn
    have hleaf := (mem_numbering_leaves hnodup).mp (List.mem_map_of_mem hn)
    rw [lookup_eq_finalName h hleaf.1, finalName_of_numbered hn]
  · intro o ho hderived name hname
    exact lookup_derived_free h ((mem_distinct _ o).mp ho) hderived hname
  · rw [s.occurrences_relabeled naming]
    exact resolve_relabel h

-- The second and third leaf ask for one name, and `a0` is the name of the first.
example : Naming.resolve []
    [⟨⟨0⟩, some "a0", false⟩, ⟨⟨1⟩, some "a", false⟩, ⟨⟨2⟩, some "A", false⟩] =
      .ok [(⟨0⟩, some "a0"), (⟨1⟩, some "a1"), (⟨2⟩, some "A2")] := rfl

end RelationalQuery
