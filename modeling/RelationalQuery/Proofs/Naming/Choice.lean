/-
  RelationalQuery.Proofs.Naming.Choice — what the chosen names guarantee.

  Names are chosen for ids: of several leaves with one id the first decides what is asked for.
  The choice is described by the look-up of an id, and four facts about it are all that the
  properties of statements rest on: an explicit alias is kept, any other name is free in the
  enclosing statements, a source that asks for a name has one, and two ids never share a name.

  Main statements:
    * `Naming.lookup_of_resolve`: the look-up of an id among the chosen names.
    * `Naming.lookup_explicit`, `Naming.lookup_derived_free`: kept names and free names.
    * `Naming.lookup_apart`: different ids have different names.
-/

import RelationalQuery.Proofs.Naming.Numbering
import RelationalQuery.Proofs.Outcome
import RelationalQuery.Select.Width

namespace RelationalQuery.Naming

/-! ## First leaves -/

/-- The leaf that decides which name an id asks for. -/
def first? (os : List Occurrence) (id : SourceId) : Option Occurrence :=
  os.find? fun o => decide (o.id = id)

/-- The first leaf of an id is at the head, or else among the rest. -/
theorem first?_cons (p : Occurrence) (rest : List Occurrence) (id : SourceId) :
    first? (p :: rest) id = if p.id = id then some p else first? rest id := by
  unfold first?
  rw [List.find?_cons]
  by_cases h : p.id = id
  · simp [h]
  · simp [h]

/-- The first leaf of an id has that id. -/
theorem id_of_first? {os : List Occurrence} {id : SourceId} {o : Occurrence}
    (h : first? os id = some o) : o.id = id := by
  simpa using List.find?_some h

/-- The first leaf of an id is one of the leaves. -/
theorem mem_of_first? {os : List Occurrence} {id : SourceId} {o : Occurrence}
    (h : first? os id = some o) : o ∈ os := List.mem_of_find?_eq_some h

/-- An id has a first leaf if any leaf has it. -/
theorem first?_isSome {os : List Occurrence} {id : SourceId} :
    (first? os id).isSome ↔ id ∈ os.map (·.id) := by
  unfold first?
  rw [List.find?_isSome]
  simp

/-- The first leaf of every id, and no other, is distinct. -/
theorem mem_distinct : (os : List Occurrence) → (o : Occurrence) →
    (o ∈ distinct os ↔ first? os o.id = some o)
  | [], o => by simp [distinct, first?]
  | p :: rest, o => by
      rw [distinct, List.mem_cons, List.mem_filter, decide_eq_true_eq, mem_distinct rest o,
        first?_cons]
      -- An id is taken by its first occurrence, and the later ones are left out.
      by_cases hid : p.id = o.id
      · rw [if_pos hid]
        constructor
        · intro h
          rcases h with rfl | ⟨_, hne⟩
          · rfl
          · exact absurd hid.symm hne
        · intro h
          exact Or.inl (Option.some.inj h).symm
      · rw [if_neg hid]
        constructor
        · intro h
          rcases h with rfl | ⟨hfirst, _⟩
          · exact absurd rfl hid
          · exact hfirst
        · intro h
          exact Or.inr ⟨h, fun heq => hid heq.symm⟩

/-- Dropping the later leaves of an id brings no id in. -/
theorem mem_ids_of_mem_distinct {os : List Occurrence} {o : Occurrence} (h : o ∈ distinct os) :
    o.id ∈ os.map (·.id) :=
  List.mem_map_of_mem (mem_of_first? ((mem_distinct os o).mp h))

/-- Of the distinct leaves, an id has one. -/
theorem eq_of_mem_distinct {os : List Occurrence} {o p : Occurrence} (ho : o ∈ distinct os)
    (hp : p ∈ distinct os) (hid : o.id = p.id) : o = p := by
  have hofirst := (mem_distinct os o).mp ho
  have hpfirst := (mem_distinct os p).mp hp
  rw [hid, hpfirst] at hofirst
  exact (Option.some.inj hofirst).symm

/-- The first leaf of an id is the one that stays. -/
theorem mem_distinct_of_first? {os : List Occurrence} {id : SourceId} {o : Occurrence}
    (h : first? os id = some o) : o ∈ distinct os := by
  rw [mem_distinct, id_of_first? h]
  exact h

/-! ## Groups -/

/-- Keys that are listed once are the keys that are listed at all. -/
theorem mem_distinctKeys : (keys : List String) → (key : String) →
    (key ∈ distinctKeys keys ↔ key ∈ keys)
  | [], key => Iff.rfl
  | first :: rest, key => by
      rw [distinctKeys, List.mem_cons, List.mem_cons, List.mem_filter, decide_eq_true_eq,
        mem_distinctKeys rest key]
      constructor
      · intro h
        rcases h with h | ⟨h, _⟩
        · exact Or.inl h
        · exact Or.inr h
      · intro h
        by_cases heq : key = first
        · exact Or.inl heq
        · exact Or.inr ⟨h.resolve_left heq, heq⟩

/-- The key that a leaf asks for is the key of a group. -/
theorem mem_groupKeys {os : List Occurrence} {o : Occurrence} {key : String} (ho : o ∈ os)
    (hkey : o.key? = some key) : key ∈ groupKeys os :=
  (mem_distinctKeys _ _).mpr (List.mem_filterMap.mpr ⟨o, ho, hkey⟩)

/-- The members of a group that are not explicit are the leaves that ask for its key and were not
given it as an alias. -/
theorem mem_derivedMembers {os : List Occurrence} {o : Occurrence} {key : String} :
    o ∈ derivedMembers os key ↔ (o ∈ os ∧ o.key? = some key) ∧ o.explicit = false := by
  rw [derivedMembers, List.mem_filter, group, List.mem_filter, decide_eq_true_eq,
    Bool.not_eq_true']

/-! ## Renamed sources -/

/-- The ids that get a new name are those of the groups whose name cannot be kept, group after
group. -/
theorem renamed_ids (outer : List String) (os : List Occurrence) :
    (renamed outer os).map (·.1) =
      (((groupKeys os).filter (!keepsName outer os ·)).map
        (derivedMembers os)).flatten.map (·.id) := numberGroups_ids _ _

/-- A new name is none of those of the enclosing statements. -/
theorem renamed_free {outer : List String} {os : List Occurrence} {entry : SourceId × String}
    (h : entry ∈ renamed outer os) : Identifier.fold entry.2 ∉ outer := by
  intro houter
  exact numberGroups_free _ _ entry h (List.mem_append_left _ houter)

/-- Exactly the derived names of the groups that do not keep theirs are changed. -/
theorem mem_renamed_ids {outer : List String} {os : List Occurrence} {id : SourceId} :
    id ∈ (renamed outer os).map (·.1) ↔ ∃ o ∈ os, o.id = id ∧ o.explicit = false ∧
      ∃ key, o.key? = some key ∧ keepsName outer os key = false := by
  rw [renamed_ids]
  simp only [List.mem_map, List.mem_flatten, List.mem_filter, Bool.not_eq_true']
  constructor
  · intro h
    obtain ⟨o, ⟨_, ⟨key, ⟨_, hkeeps⟩, rfl⟩, ho⟩, hid⟩ := h
    obtain ⟨⟨hmem, hkey⟩, hderived⟩ := mem_derivedMembers.mp ho
    exact ⟨o, hmem, hid, hderived, key, hkey, hkeeps⟩
  · intro h
    obtain ⟨o, hmem, hid, hderived, key, hkey, hkeeps⟩ := h
    exact ⟨o, ⟨_, ⟨key, ⟨mem_groupKeys hmem hkey, hkeeps⟩, rfl⟩,
      mem_derivedMembers.mpr ⟨⟨hmem, hkey⟩, hderived⟩⟩, hid⟩

/-- A look-up finds something just when there is an entry for the key. -/
theorem lookup_isSome {α β : Type} [BEq α] [LawfulBEq α] {entries : List (α × β)} {id : α} :
    (entries.lookup id).isSome ↔ id ∈ entries.map (·.1) := by
  rw [List.lookup_isSome_iff, List.mem_map]
  constructor
  · intro h
    obtain ⟨p, hp, h⟩ := h
    exact ⟨p, hp, (eq_of_beq h).symm⟩
  · intro h
    obtain ⟨p, hp, rfl⟩ := h
    exact ⟨p, hp, beq_self_eq_true _⟩

/-- What a look-up finds is one of the entries. -/
theorem mem_of_lookup {β : Type} {entries : List (SourceId × β)} {id : SourceId} {b : β}
    (h : entries.lookup id = some b) : (id, b) ∈ entries := by
  obtain ⟨before, after, rfl, _⟩ := List.lookup_eq_some_iff.mp h
  exact List.mem_append_right _ (List.mem_cons_self ..)

/-- A renamed source asks for a name, and not explicitly. -/
theorem asked_of_lookup_renamed {outer : List String} {os : List Occurrence} {o : Occurrence}
    {name : String} (ho : o ∈ distinct os)
    (h : (renamed outer (distinct os)).lookup o.id = some name) :
    o.explicit = false ∧ ∃ key, o.key? = some key := by
  have hrenamed := lookup_isSome.mp (Option.isSome_of_eq_some h)
  obtain ⟨p, hp, hid, hderived, key, hkey, _⟩ := mem_renamed_ids.mp hrenamed
  -- The renamed leaf has the id of this one, and of the distinct leaves an id has only one.
  rw [eq_of_mem_distinct hp ho hid] at hderived hkey
  exact ⟨hderived, key, hkey⟩

/-! ## The choice -/

variable {outer : List String} {os : List Occurrence} {naming : Naming} {id : SourceId}
  {o : Occurrence}

/-- A choice succeeds when no group has two explicit members and no name repeats another. -/
theorem resolve_eq_ok : resolve outer os = .ok naming ↔
    (groupKeys (distinct os)).forM (checkExplicit (distinct os)) = .ok () ∧
      naming = assign (renamed outer (distinct os)) (distinct os) ∧
      repeated? naming.names = none := by
  unfold resolve
  rw [bind_eq_ok]
  constructor
  · rintro ⟨_, hcheck, hnaming⟩
    simp only at hnaming
    split at hnaming
    · cases hnaming
    · rename_i hrepeated
      cases hnaming
      exact ⟨hcheck, rfl, hrepeated⟩
  · rintro ⟨hcheck, rfl, hrepeated⟩
    refine ⟨(), hcheck, ?_⟩
    simp only [hrepeated]

/-- The names that a successful choice gives, and what it has checked. -/
theorem eq_assign_of_resolve (h : resolve outer os = .ok naming) :
    naming = assign (renamed outer (distinct os)) (distinct os) ∧
      repeated? naming.names = none := (resolve_eq_ok.mp h).2

/-- An id is assigned the name chosen for it, or else the name that its first leaf asks for. -/
theorem lookup_assign (chosen : List (SourceId × String)) (id : SourceId) :
    (os : List Occurrence) → (assign chosen os).lookup id =
      (first? os id).map fun o => (chosen.lookup o.id).or o.name
  | [] => rfl
  | p :: rest => by
      rw [first?_cons]
      by_cases h : p.id = id
      · rw [if_pos h, Option.map_some, ← h, assign, List.map_cons, List.lookup_cons_self]
      · rw [if_neg h, assign, List.map_cons, lookup_cons_of_ne h]
        exact lookup_assign chosen id rest

/-- The first leaf of an id is also the first among the distinct ones. -/
theorem first?_distinct (os : List Occurrence) (id : SourceId) :
    first? (distinct os) id = first? os id := by
  cases hfirst : first? os id with
  | none =>
      cases hdistinct : first? (distinct os) id with
      | none => rfl
      | some o =>
          -- A distinct leaf is one of the leaves, so its id cannot be missing among them.
          have hid := id_of_first? hdistinct
          have hmem := (mem_distinct os o).mp (mem_of_first? hdistinct)
          rw [hid, hfirst] at hmem
          cases hmem
  | some o =>
      have hid := id_of_first? hfirst
      subst hid
      have hmem := (mem_distinct os o).mpr hfirst
      have hsome : (first? (distinct os) o.id).isSome :=
        first?_isSome.mpr (List.mem_map_of_mem hmem)
      obtain ⟨p, hp⟩ := Option.isSome_iff_exists.mp hsome
      rw [hp, eq_of_mem_distinct (mem_of_first? hp) hmem (id_of_first? hp)]

/-- **The name of an id**: its new name, or else the name that its first leaf asks for. -/
theorem lookup_of_resolve (h : resolve outer os = .ok naming) (id : SourceId) :
    naming.lookup id = (first? os id).map fun o =>
      ((renamed outer (distinct os)).lookup o.id).or o.name := by
  rw [(eq_assign_of_resolve h).1, lookup_assign, first?_distinct]

/-- The ids that a choice names are those of its leaves. -/
theorem mem_ids_of_lookup (h : resolve outer os = .ok naming) :
    (naming.lookup id).isSome ↔ id ∈ os.map (·.id) := by
  rw [lookup_of_resolve h, Option.isSome_map, first?_isSome]

/-- **An explicit alias is kept as written.** -/
theorem lookup_explicit (h : resolve outer os = .ok naming) (hfirst : first? os id = some o)
    (hexplicit : o.explicit = true) : naming.lookup id = some o.name := by
  rw [lookup_of_resolve h, hfirst, Option.map_some]
  cases hlookup : (renamed outer (distinct os)).lookup o.id with
  | none => rfl
  | some name =>
      have hderived := (asked_of_lookup_renamed (mem_distinct_of_first? hfirst) hlookup).1
      rw [hexplicit] at hderived
      cases hderived

/-- **A name that is not explicit is free** in the enclosing statements. -/
theorem lookup_derived_free (h : resolve outer os = .ok naming) (hfirst : first? os id = some o)
    (hderived : o.explicit = false) {name : String} (hname : naming.lookup id = some (some name)) :
    Identifier.fold name ∉ outer := by
  rw [lookup_of_resolve h, hfirst, Option.map_some] at hname
  have ho := mem_distinct_of_first? hfirst
  cases hlookup : (renamed outer (distinct os)).lookup o.id with
  | some chosen =>
      -- It got a number, and the search has avoided all outer names.
      rw [hlookup, Option.some_or, Option.some_inj, Option.some_inj] at hname
      subst hname
      have hfree := renamed_free (mem_of_lookup hlookup)
      exact hfree
  | none =>
      -- It keeps what it asked for, which its group can only do if no outer name is like it.
      rw [hlookup, Option.none_or, Option.some_inj] at hname
      have hkey : o.key? = some (Identifier.fold name) := by rw [Occurrence.key?, hname]; rfl
      have hkeeps : keepsName outer (distinct os) (Identifier.fold name) = true := by
        rw [← Bool.not_eq_false]
        intro hnot
        have hrenamed := mem_renamed_ids.mpr ⟨o, ho, rfl, hderived, _, hkey, hnot⟩
        rw [← lookup_isSome, hlookup] at hrenamed
        cases hrenamed
      have hmember : o ∈ derivedMembers (distinct os) (Identifier.fold name) :=
        mem_derivedMembers.mpr ⟨⟨ho, hkey⟩, hderived⟩
      rw [keepsName, Bool.or_eq_true, decide_eq_true_eq] at hkeeps
      rcases hkeeps with hfree | hempty
      · exact hfree.2
      · rw [List.isEmpty_iff.mp hempty] at hmember
        cases hmember

/-- A source that asks for no name has none. -/
theorem lookup_unnamed (h : resolve outer os = .ok naming) (hfirst : first? os id = some o)
    (hunnamed : o.name = none) : naming.lookup id = some none := by
  rw [lookup_of_resolve h, hfirst, Option.map_some, hunnamed]
  cases hlookup : (renamed outer (distinct os)).lookup o.id with
  | none => rfl
  | some name =>
      obtain ⟨_, key, hkey⟩ := asked_of_lookup_renamed (mem_distinct_of_first? hfirst) hlookup
      rw [Occurrence.key?, hunnamed] at hkey
      cases hkey

/-- A source that asks for a name has one. -/
theorem lookup_named (h : resolve outer os = .ok naming) (hfirst : first? os id = some o)
    (hnamed : o.name.isSome) : ∃ name, naming.lookup id = some (some name) := by
  rw [lookup_of_resolve h, hfirst, Option.map_some]
  obtain ⟨asked, hasked⟩ := Option.isSome_iff_exists.mp hnamed
  rw [hasked]
  cases (renamed outer (distinct os)).lookup o.id with
  | none => exact ⟨asked, rfl⟩
  | some chosen => exact ⟨chosen, rfl⟩

/-- No name is repeated just when no two names are the same by the rules of identifiers. -/
theorem repeated?_eq_none {names : List String} :
    repeated? names = none ↔ names.Pairwise fun a b => ¬Identifier.Same a b := by
  induction names with
  | nil => exact iff_of_true rfl .nil
  | cons name rest ih =>
      rw [repeated?, List.pairwise_cons]
      split
      · rename_i h
        obtain ⟨other, hother, hsame⟩ := List.any_eq_true.mp h
        exact iff_of_false (Option.some_ne_none _) fun hrest =>
          hrest.1 other hother (of_decide_eq_true hsame).symm
      · rename_i h
        -- No later name is the same, so only the rest can have a repetition.
        have hname : ∀ other ∈ rest, ¬Identifier.Same name other := fun other hother hsame =>
          h (List.any_eq_true.mpr ⟨other, hother, decide_eq_true hsame.symm⟩)
        rw [ih, and_iff_right hname]

/-- **Different ids have different names**, ASCII case aside. -/
theorem lookup_apart (h : resolve outer os = .ok naming) {a b : SourceId} {m n : String}
    (ha : naming.lookup a = some (some m)) (hb : naming.lookup b = some (some n)) (hne : a ≠ b) :
    ¬Identifier.Same m n := by
  have hnames := repeated?_eq_none.mp (eq_assign_of_resolve h).2
  -- The check is on positions in the list, so the two look-ups are compared by position.
  have hpairs := List.pairwise_iff_getElem.mp (List.pairwise_filterMap.mp hnames)
  obtain ⟨i, hi, hia⟩ := List.mem_iff_getElem.mp (mem_of_lookup ha)
  obtain ⟨j, hj, hjb⟩ := List.mem_iff_getElem.mp (mem_of_lookup hb)
  have him : naming[i].2 = some m := congrArg Prod.snd hia
  have hjn : naming[j].2 = some n := congrArg Prod.snd hjb
  rcases Nat.lt_trichotomy i j with hlt | heq | hgt
  · exact hpairs i j hi hj hlt m him n hjn
  · subst heq
    exact absurd (congrArg Prod.fst (hia.symm.trans hjb)) hne
  · intro hsame
    exact hpairs j i hj hi hgt n hjn m him hsame.symm

end RelationalQuery.Naming
