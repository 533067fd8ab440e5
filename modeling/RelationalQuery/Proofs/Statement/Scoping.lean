/-
  RelationalQuery.Proofs.Statement.Scoping — written names against FROM clauses.

  Names are chosen in a scope, which knows ids; SQL looks names up in FROM clauses, which know
  texts. The two fit when every FROM clause around introduces just the names that were chosen for
  it. A FROM clause of a query whose leaves are in order fits the names chosen for it, so that
  each property of written names can be proved of the chosen ones.

  Main definitions:
    * `Fits`: the FROM clauses around introduce the names chosen for them.
    * `Sql.WellNamed`: the sources of a FROM clause are distinct and have distinct names.

  Main statements:
    * `Source.leaves_of_resolve`: what a FROM clause introduces, in order.
    * `Source.fits_of_resolveClause`: it fits the names chosen for it.
-/

import RelationalQuery.Proofs.Building.Parts
import RelationalQuery.Proofs.Naming.Choice
import RelationalQuery.Proofs.Statement.Clauses
import RelationalQuery.Proofs.Statement.Sites

namespace RelationalQuery

open Sql

/-! ## Scopes and FROM clauses -/

/-- The names that statements use, folded. -/
def visibleNames (namings : List Naming) : List String :=
  (namings.flatMap Naming.names).map Identifier.fold

/-- The FROM clauses around introduce the names that were chosen for them. -/
inductive Fits : List Naming → List Level → Prop
  | outermost : Fits [] []
  | inside {naming : Naming} {namings : List Naming} {level : Level} {levels : List Level}
      (chosen : Naming.resolve (visibleNames namings) level.occurrences = .ok naming)
      (introduced : ∀ leaf ∈ level.leaves, naming.lookup leaf.id = some leaf.name)
      (around : Fits namings levels) : Fits (naming :: namings) (level :: levels)

/-- The innermost names were chosen for the given leaves, and the FROM clauses around fit. -/
inductive NamedAmong (occurrences : List Occurrence) (outer : List Level) : List Naming → Prop
  | intro {naming : Naming} {namings : List Naming}
      (chosen : Naming.resolve (visibleNames namings) occurrences = .ok naming)
      (around : Fits namings outer) : NamedAmong occurrences outer (naming :: namings)

/-- Entering a statement chooses the names of its leaves. -/
theorem namedAmong_of_enter {scope inner : Scope} {chain : List Level} {os : List Occurrence}
    (hfits : Fits scope.namings chain) (h : scope.enter os = .ok inner) :
    NamedAmong os chain inner.namings := by
  unfold Scope.enter at h
  obtain ⟨naming, hchosen, hinner⟩ := bind_eq_ok.mp h
  rw [← pure_eq_ok.mp hinner]
  exact .intro hchosen hfits

/-- The innermost FROM clause names its own leaves. -/
theorem namedAmong_of_fits {namings : List Naming} {level : Level} {outer : List Level}
    (h : Fits namings (level :: outer)) : NamedAmong level.occurrences outer namings := by
  cases h with
  | inside chosen _ around => exact .intro chosen around

/-! ## What a FROM clause introduces -/

/-- The FROM clause as its sources and their names: ids are distinct, names are distinct up to
ASCII case, and only the first source can have none. -/
structure Sql.WellNamed (leaves : List Leaf) : Prop where
  ids : (leaves.map (·.id)).Nodup
  apart : leaves.Pairwise fun a b =>
    ∀ m, a.name = some m → ∀ n, b.name = some n → ¬Identifier.Same m n
  named : ∀ leaf ∈ leaves.tail, leaf.name.isSome

/-- What a leaf introduces in a scope. -/
def Source.introduced (scope : Scope) : Source → Leaf
  | .table id name _ => ⟨id, some ((scope.name? id).getD name)⟩
  | s => ⟨s.id, scope.name? s.id⟩

theorem Source.id_introduced (scope : Scope) (s : Source) : (s.introduced scope).id = s.id := by
  cases s <;> rfl

/-- A leaf of a FROM tree is one source in the FROM clause. -/
theorem Source.leaves_of_resolve_leaf {scope : Scope} {s : Source} (hleaf : s.IsLeaf) {t : From}
    (h : s.resolve scope = .ok t) : t.leaves = [s.introduced scope] := by
  match s, hleaf with
  | .table id name label, _ =>
      rw [Source.resolve] at h
      cases h
      rfl
  | .subquery id query label, _ =>
      rw [Source.resolve] at h
      obtain ⟨statement, _, ht⟩ := bind_eq_ok.mp h
      cases ht
      rfl

theorem Sql.JoinClause.leaves_append : (a b : List JoinClause) →
    JoinClause.leaves (a ++ b) = JoinClause.leaves a ++ JoinClause.leaves b
  | [], _ => rfl
  | ⟨_, target, _, _⟩ :: rest, b => by
      rw [List.cons_append, JoinClause.leaves, JoinClause.leaves, leaves_append rest b,
        List.append_assoc]

/-- Joins introduce their targets, each before those below it. -/
theorem Join.leaves_of_resolveAll {scope : Scope} : (joins : List Join) →
    (left : Clauses.Anchor) → (afterOptional : Bool) → (∀ t ∈ Join.targets joins, t.IsLeaf) →
    ∀ clauses, Join.resolveAll scope left afterOptional joins = .ok clauses →
      JoinClause.leaves clauses = (Join.targets joins).map (Source.introduced scope)
  | [], _, _, _, clauses, h => by
      rw [Join.resolveAll] at h
      cases h
      rfl
  | ⟨_, kind, ⟨_, target, _, _, _, joins⟩⟩ :: rest, left, afterOptional, hleaf, clauses, h => by
      obtain ⟨source, on, nested, others, hsource, _, hnested, hothers, rfl⟩ :=
        Join.of_resolveAll_cons h
      rw [Join.targets, Relation.targets] at hleaf ⊢
      -- Targets come in the order of the joins: this one, those below it, and the rest.
      have htarget : target.IsLeaf := hleaf target (List.mem_append_left _ (List.mem_cons_self ..))
      have hjoins : ∀ t ∈ Join.targets joins, t.IsLeaf := fun t ht =>
        hleaf t (List.mem_append_left _ (List.mem_cons_of_mem _ ht))
      have hrest : ∀ t ∈ Join.targets rest, t.IsLeaf := fun t ht =>
        hleaf t (List.mem_append_right _ ht)
      rw [List.cons_append, JoinClause.leaves, JoinClause.leaves_append,
        Source.leaves_of_resolve_leaf htarget hsource,
        Join.leaves_of_resolveAll joins _ _ hjoins nested hnested,
        Join.leaves_of_resolveAll rest _ _ hrest others hothers, List.map_append, List.map_cons]
      rfl

/-- **What a FROM clause introduces**: its base and then the targets of its joins, in order. -/
theorem Source.leaves_of_resolve {scope : Scope} {s : Source} (hleaf : ∀ t ∈ s.leaves, t.IsLeaf)
    {t : From} (h : s.resolve scope = .ok t) :
    t.leaves = s.leaves.map (Source.introduced scope) := by
  match s with
  | .table id name label =>
      exact Source.leaves_of_resolve_leaf (hleaf (.table id name label) (List.mem_cons_self ..)) h
  | .subquery id query label =>
      exact Source.leaves_of_resolve_leaf (hleaf (.subquery id query label) (List.mem_cons_self ..)) h
  -- The left source of a tree is its base, which is a leaf.
  | .joinTree id left joins =>
      rw [Source.resolve] at h
      obtain ⟨source, hsource, h⟩ := bind_eq_ok.mp h
      obtain ⟨clauses, hclauses, h⟩ := bind_eq_ok.mp h
      rw [← pure_eq_ok.mp h, From.leaves,
        Source.leaves_of_resolve_leaf (hleaf left (List.mem_cons_self ..)) hsource,
        Join.leaves_of_resolveAll joins _ _ (fun t ht => hleaf t (List.mem_cons_of_mem _ ht))
          clauses hclauses]
      rfl

/-! ## Introduced names are chosen names -/

section Introduced

variable {scope : Scope} {naming : Naming} {namings : List Naming} {outer : List String}
  {os : List Occurrence}

/-- What was chosen for an id in the innermost statement is found. -/
theorem Scope.find?_of_lookup (hscope : scope.namings = naming :: namings) {id : SourceId}
    {name : Option String} (h : naming.lookup id = some name) : scope.find? id = some name := by
  rw [Scope.find?, hscope, List.findSome?_cons, h]

theorem Scope.name?_of_lookup (hscope : scope.namings = naming :: namings) {id : SourceId}
    {name : Option String} (h : naming.lookup id = some name) : scope.name? id = name := by
  rw [Scope.name?, Scope.find?_of_lookup hscope h, Option.join_some]

/-- An id that belongs to named leaves only has a name. -/
theorem Naming.lookup_pinned (hchosen : Naming.resolve outer os = .ok naming)
    {pinned : List SourceId} (hcoherent : Coherent pinned os) {id : SourceId} (hid : id ∈ pinned)
    (hmem : id ∈ os.map (·.id)) : ∃ name, naming.lookup id = some (some name) := by
  obtain ⟨o, ho⟩ := Option.isSome_iff_exists.mp (Naming.first?_isSome.mpr hmem)
  have hnamed := hcoherent id hid o (Naming.mem_of_first? ho) (Naming.id_of_first? ho)
  exact Naming.lookup_named hchosen ho hnamed

/-- A leaf of a source has an occurrence by its id. -/
theorem Source.id_mem {s t : Source} (hsubset : s.occurrences ⊆ os) (ht : t ∈ s.leaves)
    (hleaf : t.IsLeaf) : t.id ∈ os.map (·.id) :=
  List.mem_map_of_mem (hsubset (Source.occurrences_subset ht (Source.occurrence_mem hleaf)))

/-- A leaf is introduced by the name that was chosen for it. -/
theorem Source.lookup_introduced (hscope : scope.namings = naming :: namings)
    (hchosen : Naming.resolve outer os = .ok naming) {t : Source} (hcoherent : Coherent t.pinned os)
    (hmem : t.id ∈ os.map (·.id)) :
    naming.lookup (t.introduced scope).id = some (t.introduced scope).name := by
  obtain ⟨chosen, hlookup⟩ :=
    Option.isSome_iff_exists.mp ((Naming.mem_ids_of_lookup hchosen).mpr hmem)
  have hname := Scope.name?_of_lookup hscope hlookup
  match t with
  | .table id name label =>
      -- A table would go by the table's name if it had no other; but its id is pinned.
      obtain ⟨own, hown⟩ := Naming.lookup_pinned hchosen hcoherent (List.mem_cons_self ..) hmem
      show naming.lookup id = some (some ((scope.name? id).getD name))
      rw [Scope.name?_of_lookup hscope hown]
      exact hown
  | .subquery id query label =>
      show naming.lookup id = some (scope.name? (Source.subquery id query label).id)
      rw [hname]
      exact hlookup
  | .joinTree id left joins =>
      show naming.lookup id = some (scope.name? (Source.joinTree id left joins).id)
      rw [hname]
      exact hlookup

/-- Every source of a FROM clause is introduced by the name that was chosen for it. -/
theorem Source.lookup_leaves (hscope : scope.namings = naming :: namings)
    (hchosen : Naming.resolve outer os = .ok naming) {s : Source}
    (hleaf : ∀ t ∈ s.leaves, t.IsLeaf) (hcoherent : Coherent s.pinned os)
    (hsubset : s.occurrences ⊆ os) :
    ∀ leaf ∈ s.leaves.map (Source.introduced scope), naming.lookup leaf.id = some leaf.name := by
  intro leaf hmem
  obtain ⟨t, ht, rfl⟩ := List.mem_map.mp hmem
  exact Source.lookup_introduced hscope hchosen
    (hcoherent.mono (Source.pinned_subset ht) (List.Subset.refl _))
    (Source.id_mem hsubset ht (hleaf t ht))

/-- **The names of a FROM clause are distinct**, and only its base can lack one. -/
theorem Source.wellNamed (hscope : scope.namings = naming :: namings)
    (hchosen : Naming.resolve outer os = .ok naming) {s : Source} (hproper : s.Proper)
    (hcoherent : Coherent s.pinned os) (hsubset : s.occurrences ⊆ os) :
    WellNamed (s.leaves.map (Source.introduced scope)) := by
  have hlookup := Source.lookup_leaves hscope hchosen hproper.leaf hcoherent hsubset
  have hids : (s.leaves.map (Source.introduced scope)).map (·.id) = s.leaves.map Source.id := by
    rw [List.map_map]
    exact List.map_congr_left fun t _ => Source.id_introduced scope t
  refine ⟨hids ▸ hproper.distinct, ?_, ?_⟩
  · -- Distinct ids have distinct names, so the names are apart because the ids are.
    have hne := List.pairwise_map.mp (hids ▸ hproper.distinct : List.Nodup _)
    refine hne.imp_of_mem ?_
    intro a b ha hb hne m hm n hn
    have hma := hlookup a ha
    have hnb := hlookup b hb
    rw [hm] at hma
    rw [hn] at hnb
    exact Naming.lookup_apart hchosen hma hnb hne
  · -- The others are targets of joins, and the ids of targets are pinned.
    intro leaf hleaf
    obtain ⟨t, ht, rfl⟩ := List.mem_map.mp (List.map_tail .. ▸ hleaf)
    have hmem : t ∈ s.leaves := List.mem_cons_of_mem _ ht
    obtain ⟨name, hname⟩ := Naming.lookup_pinned hchosen hcoherent (Source.target_mem_pinned ht)
      (Source.id_mem hsubset hmem (hproper.leaf t hmem))
    have hown := hlookup _ (List.mem_map_of_mem hmem)
    rw [Source.id_introduced, hname] at hown
    rw [← Option.some.inj hown]
    rfl

end Introduced

/-- **A FROM clause fits the names chosen for it**, and its names are distinct. -/
theorem Source.fits_of_resolveClause {scope : Scope} {occurrences : List Occurrence}
    {outer : List Level} (hnamed : NamedAmong occurrences outer scope.namings)
    {source : Option Source} (hproper : ∀ s, source = some s → s.Proper)
    (hsubset : (source.map Source.occurrences).getD [] ⊆ occurrences)
    (hcoherent : Coherent ((source.map Source.pinned).getD []) occurrences)
    {clause : Option From} (h : Source.resolveClause scope source = .ok clause) :
    Fits scope.namings (⟨(clause.map From.leaves).getD [], occurrences⟩ :: outer) ∧
      WellNamed ((clause.map From.leaves).getD []) := by
  generalize hscope : scope.namings = chosenNamings at hnamed
  obtain ⟨hchosen, haround⟩ := hnamed
  cases source with
  | none =>
      -- Without a FROM clause no source is introduced.
      cases h
      exact ⟨.inside hchosen (fun leaf hleaf => absurd hleaf List.not_mem_nil) haround,
        ⟨List.nodup_nil, List.Pairwise.nil, fun leaf hleaf => absurd hleaf List.not_mem_nil⟩⟩
  | some s =>
      obtain ⟨t, ht, rfl⟩ := map_eq_ok.mp h
      have hs := hproper s rfl
      rw [Option.map_some, Option.getD_some, Source.leaves_of_resolve hs.leaf ht]
      exact ⟨.inside hchosen (Source.lookup_leaves hscope hchosen hs.leaf hcoherent hsubset) haround,
        Source.wellNamed hscope hchosen hs hcoherent hsubset⟩

end RelationalQuery
