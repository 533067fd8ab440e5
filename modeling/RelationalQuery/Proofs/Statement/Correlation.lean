/-
  RelationalQuery.Proofs.Statement.Correlation — a reference names the source that it is written for.

  A column of an outer source can be used inside a subquery. SQL then looks its qualifier up from
  the inside out, and the first source that goes by the name is the one that is meant. The names
  that are chosen for the inner FROM clauses avoid those of the outer ones; only an explicit
  alias is kept as written, whatever is around. So a qualifier misses its source just when an
  explicit alias in between is spelled like it.

  Main definitions:
    * `Sql.Level.aliases`: the explicit aliases that a FROM clause introduces.

  Main statements:
    * `denoted?_eq_some_iff`: the induction over the FROM clauses in between.
    * `Session.Reachable.denotes_iff`: of every reference in every query that building gives.
-/

import RelationalQuery.Proofs.Building.Reachable
import RelationalQuery.Proofs.Statement.Explained
import RelationalQuery.Proofs.Statement.Writing

namespace RelationalQuery

open Sql

/-! ## One FROM clause -/

/-- The explicit alias that a source was given, if it was given one. -/
def Sql.Level.alias? (level : Level) (id : SourceId) : Option String :=
  match Naming.first? level.occurrences id with
  | some o => if o.explicit then o.name else none
  | none => none

/-- The explicit aliases that a FROM clause introduces. -/
def Sql.Level.aliases (level : Level) : List String :=
  level.leaves.filterMap fun leaf => level.alias? leaf.id

section Level

variable {naming : Naming} {outer : List String} {level : Level}

/-- A name that a FROM clause introduces is an explicit alias, or one that nothing around uses. -/
theorem Sql.Level.alias?_or_free
    (hchosen : Naming.resolve outer level.occurrences = .ok naming)
    (hintroduced : ∀ leaf ∈ level.leaves, naming.lookup leaf.id = some leaf.name) {leaf : Leaf}
    (hleaf : leaf ∈ level.leaves) {name : String} (hname : leaf.name = some name) :
    level.alias? leaf.id = some name ∨ Identifier.fold name ∉ outer := by
  have hlookup := hintroduced leaf hleaf
  rw [hname] at hlookup
  have hmem := (Naming.mem_ids_of_lookup hchosen).mp (Option.isSome_of_eq_some hlookup)
  -- What the id was given is decided by its first leaf.
  obtain ⟨o, ho⟩ := Option.isSome_iff_exists.mp (Naming.first?_isSome.mpr hmem)
  cases hexplicit : o.explicit with
  | false => exact Or.inr (Naming.lookup_derived_free hchosen ho hexplicit hlookup)
  | true =>
      left
      rw [Naming.lookup_explicit hchosen ho hexplicit] at hlookup
      rw [Level.alias?, ho]
      show (if o.explicit then o.name else none) = some name
      rw [if_pos hexplicit]
      exact Option.some.inj hlookup

/-- An explicit alias is the name that its source goes by. -/
theorem Sql.Level.name_of_alias? (hchosen : Naming.resolve outer level.occurrences = .ok naming)
    (hintroduced : ∀ leaf ∈ level.leaves, naming.lookup leaf.id = some leaf.name) {leaf : Leaf}
    (hleaf : leaf ∈ level.leaves) {given : String} (hgiven : level.alias? leaf.id = some given) :
    leaf.name = some given := by
  unfold Level.alias? at hgiven
  split at hgiven
  · rename_i o ho
    split at hgiven
    · rename_i hexplicit
      -- An explicit alias is kept by the choice, so it is what the FROM clause introduces.
      have hlookup := hintroduced leaf hleaf
      rw [Naming.lookup_explicit hchosen ho hexplicit, hgiven] at hlookup
      exact (Option.some.inj hlookup).symm
    · cases hgiven
  · cases hgiven

/-- What a name stands for in a FROM clause goes by it. -/
theorem Sql.Level.of_denoted? {name : String} {id : SourceId} (h : level.denoted? name = some id) :
    ∃ leaf ∈ level.leaves, leaf.id = id ∧
      ∃ own, leaf.name = some own ∧ Identifier.Same own name := by
  unfold Level.denoted? at h
  obtain ⟨leaf, hfind, rfl⟩ := Option.map_eq_some_iff.mp h
  have hsame := List.find?_some hfind
  obtain ⟨own, hown, hsame⟩ := (Option.any_eq_true ..).mp hsame
  exact ⟨leaf, List.mem_of_find?_eq_some hfind, rfl, own, hown, of_decide_eq_true hsame⟩

/-- A name that some source of a FROM clause goes by stands for one of them. -/
theorem Sql.Level.denoted?_isSome {leaf : Leaf} (hleaf : leaf ∈ level.leaves) {own name : String}
    (hown : leaf.name = some own) (hsame : Identifier.Same own name) :
    (level.denoted? name).isSome := by
  unfold Level.denoted?
  rw [Option.isSome_map, List.find?_isSome]
  refine ⟨leaf, hleaf, ?_⟩
  rw [hown]
  exact decide_eq_true hsame

/-- In its own FROM clause, the name of a source stands for it. -/
theorem Sql.Level.denoted?_own (hchosen : Naming.resolve outer level.occurrences = .ok naming)
    (hintroduced : ∀ leaf ∈ level.leaves, naming.lookup leaf.id = some leaf.name) {leaf : Leaf}
    (hleaf : leaf ∈ level.leaves) {name : String} (hname : leaf.name = some name) :
    level.denoted? name = some leaf.id := by
  obtain ⟨id, hid⟩ :=
    Option.isSome_iff_exists.mp (Level.denoted?_isSome hleaf hname (Identifier.Same.refl name))
  obtain ⟨other, hother, rfl, own, hown, hsame⟩ := Level.of_denoted? hid
  rw [hid]
  have hlookup := hintroduced leaf hleaf
  have hlookupOther := hintroduced other hother
  rw [hname] at hlookup
  rw [hown] at hlookupOther
  -- The leaf that is found has the same name, so it is the same leaf.
  by_cases hne : other.id = leaf.id
  · rw [hne]
  · exact absurd hsame (Naming.lookup_apart hchosen hlookupOther hlookup hne)

end Level

/-! ## The FROM clauses in between -/

/-- The name of a visible source is in use. -/
theorem fold_mem_visibleNames {namings : List Naming} {id : SourceId} {name : String}
    (h : (namings.findSome? fun naming => naming.lookup id) = some (some name)) :
    Identifier.fold name ∈ visibleNames namings := by
  obtain ⟨naming, hnaming, hlookup⟩ := List.exists_of_findSome?_eq_some h
  refine List.mem_map_of_mem (List.mem_flatMap.mpr ⟨naming, hnaming, ?_⟩)
  exact List.mem_filterMap.mpr ⟨_, Naming.mem_of_lookup hlookup, rfl⟩

/-- **A qualifier stands for its source just when no explicit alias in between is spelled like
it.** The source is in the FROM clause `level`, and no statement in between names it too. -/
theorem denoted?_eq_some_iff {level : Level} {outer : List Level} {source : SourceId}
    {name : String} (hvisible : source ∈ level.leaves.map (·.id)) : (inner : List Level) →
    (namings : List Naming) → Fits namings (inner ++ level :: outer) →
    (namings.findSome? fun naming => naming.lookup source) = some (some name) →
    (∀ l ∈ inner, source ∉ l.occurrences.map (·.id)) →
      (denoted? (inner ++ level :: outer) name = some source ↔
        ∀ l ∈ inner, ∀ given ∈ l.aliases, ¬Identifier.Same given name)
  | [], namings, hfits, hname, _ => by
      obtain ⟨leaf, hleaf, rfl⟩ := List.mem_map.mp hvisible
      rw [List.nil_append] at hfits ⊢
      cases hfits with
      | inside hchosen hintroduced _ =>
          rw [List.findSome?_cons, hintroduced leaf hleaf] at hname
          have hown := Level.denoted?_own hchosen hintroduced hleaf (Option.some.inj hname)
          constructor
          · intro _ l hl
            cases hl
          · intro _
            rw [denoted?, List.findSome?_cons, hown]
  | l :: inner, _, hfits, hname, hinner => by
      obtain ⟨hl, hinner⟩ := List.forall_mem_cons.mp hinner
      rw [List.cons_append] at hfits ⊢
      cases hfits with
      | @inside naming namings _ _ hchosen hintroduced hrest =>
          -- The FROM clause does not name the source, so its names come from further out.
          have hnone : naming.lookup source = none := by
            rw [← Option.not_isSome_iff_eq_none]
            exact fun hsome => hl ((Naming.mem_ids_of_lookup hchosen).mp hsome)
          rw [List.findSome?_cons, hnone] at hname
          have ih := denoted?_eq_some_iff hvisible inner namings hrest hname hinner
          rw [List.forall_mem_cons, denoted?, List.findSome?_cons]
          cases hdenoted : l.denoted? name with
          | none =>
              -- Nothing here goes by the name, so no alias is spelled like it either.
              refine ih.trans ⟨fun hclear => ⟨?_, hclear⟩, fun h => h.2⟩
              intro given hgiven hsame
              obtain ⟨leaf, hleaf, halias⟩ := List.mem_filterMap.mp hgiven
              have hown := Level.name_of_alias? hchosen hintroduced hleaf halias
              have hsome := Level.denoted?_isSome hleaf hown hsame
              rw [hdenoted] at hsome
              cases hsome
          | some other =>
              -- What goes by the name here was given it, since no other name is taken twice.
              obtain ⟨leaf, hleaf, rfl, own, hown, hsame⟩ := Level.of_denoted? hdenoted
              have hmem : leaf.id ∈ l.occurrences.map (·.id) :=
                (Naming.mem_ids_of_lookup hchosen).mp
                  (Option.isSome_of_eq_some (hintroduced leaf hleaf))
              constructor
              · intro heq
                rw [Option.some.inj heq] at hmem
                exact absurd hmem hl
              · intro h
                obtain ⟨hclear, _⟩ := h
                rcases Level.alias?_or_free hchosen hintroduced hleaf hown with halias | hfree
                · exact absurd hsame (hclear own (List.mem_filterMap.mpr ⟨leaf, hleaf, halias⟩))
                · refine absurd ?_ hfree
                  rw [show Identifier.fold own = Identifier.fold name from hsame]
                  exact fold_mem_visibleNames hname

/-! ## References in statements -/

/-- **A correlated column keeps pointing at its occurrence** unless an explicit alias captures it.
Of every query that building gives and that compiles: a reference is written with the name by which
the FROM clause of its source introduces it, and that name, looked up in the FROM clauses from the
inside out, stands for the source just when no FROM clause in between has a source under an
explicit alias that is spelled like it, ASCII case aside. The source is in the FROM clause
`level`, and the statements in between do not name it again. -/
theorem Session.Reachable.denotes_iff {σ : Session} (hσ : σ.Reachable) {q : Query}
    (hq : .query q ∈ σ.held) {schema : Schema} {sql : BoundSql}
    (hcompile : q.compile schema = .ok sql) :
    ∃ statement, q.statement schema = .ok statement ∧ statement.write.build = .ok sql ∧
      ∀ inner level outer r, .reference (inner ++ level :: outer) r ∈ statement.allSites →
        ∀ leaf ∈ level.leaves, leaf.id = r.source →
        (∀ l ∈ inner, r.source ∉ l.occurrences.map (·.id)) →
          r.qualifier = leaf.name ∧ ∀ name, r.qualifier = some name →
            (denoted? (inner ++ level :: outer) name = some r.source ↔
              ∀ l ∈ inner, ∀ given ∈ l.aliases, ¬Identifier.Same given name) := by
  obtain ⟨statement, hstatement, hbuild⟩ := Query.statement_of_compile hcompile
  refine ⟨statement, hstatement, hbuild, ?_⟩
  intro inner level outer r hsite leaf hleaf hid hinner
  obtain ⟨namings, hfits, hname⟩ :=
    Query.allSites_explained (hσ.sound hq) hstatement _ hsite
  -- The reference is to a leaf of this level, so the leaf stands for its source.
  rw [← hid] at hname hinner ⊢
  refine ⟨Fits.qualifier_eq hleaf inner namings hfits hname hinner, ?_⟩
  intro name hqualifier
  rw [hqualifier] at hname
  exact denoted?_eq_some_iff (List.mem_map_of_mem hleaf) inner namings hfits hname hinner

/-- A site of a statement that is computed. -/
theorem Query.exists_site {schema : Schema} {q : Query} {site : Site}
    (h : ((q.statement schema).toOption.any fun s => decide (site ∈ s.allSites)) = true) :
    ∃ s, q.statement schema = .ok s ∧ site ∈ s.allSites := by
  cases hs : q.statement schema with
  | error e =>
      rw [hs] at h
      cases h
  | ok s =>
      rw [hs] at h
      exact ⟨s, rfl, of_decide_eq_true h⟩

/-- Of people who are led, the leader's subquery has no alias of its own, so the reference out of
it stands for the person. -/
theorem ledPeople_denotes : ∃ sql statement level outer, ledPeople.compile people = .ok sql ∧
    ledPeople.statement people = .ok statement ∧
    .reference (level :: outer) ⟨⟨0⟩, some "persons"⟩ ∈ statement.allSites ∧
    (⟨0⟩ : SourceId) ∉ level.leaves.map (·.id) ∧
    denoted? (level :: outer) "persons" = some ⟨0⟩ := by
  let inside : Level := ⟨[⟨⟨5⟩, some "persons0"⟩], [⟨⟨5⟩, some "persons", false⟩]⟩
  let around : Level :=
    ⟨[⟨⟨0⟩, some "persons"⟩, ⟨⟨2⟩, some "leader0"⟩, ⟨⟨3⟩, some "leader1"⟩],
      [⟨⟨0⟩, some "persons", false⟩, ⟨⟨2⟩, some "leader", false⟩, ⟨⟨3⟩, some "leader", false⟩]⟩
  let person : Reference := ⟨⟨0⟩, some "persons"⟩
  obtain ⟨σ, hσ, hq⟩ := reachable_ledPeople
  obtain ⟨sql, hsql⟩ : ∃ sql, ledPeople.compile people = .ok sql := exists_ok (by decide +kernel)
  obtain ⟨statement, hstatement, _, hdenotes⟩ := hσ.denotes_iff hq hsql
  obtain ⟨s, hs, hsite⟩ : ∃ s, ledPeople.statement people = .ok s ∧
      .reference [inside, around] person ∈ s.allSites := Query.exists_site (by decide +kernel)
  rw [hstatement] at hs
  cases hs
  -- No alias in between was given, so nothing can capture the reference.
  obtain ⟨_, hiff⟩ := hdenotes [inside] around [] person hsite ⟨⟨0⟩, some "persons"⟩
    (List.mem_cons_self ..) rfl (by decide)
  exact ⟨sql, statement, inside, [around], hsql, hstatement, hsite, by decide,
    (hiff "persons" rfl).mpr (by decide)⟩

/-! ## References that are captured -/

/-- Every qualifier stands for the source that it is written for: of those in sight, the innermost
one with its id. -/
def Sql.Statement.KeepsReferences (s : Statement) : Prop :=
  ∀ inner level outer r name, .reference (inner ++ level :: outer) r ∈ s.allSites →
    r.source ∈ level.leaves.map (·.id) → (∀ l ∈ inner, r.source ∉ l.leaves.map (·.id)) →
      r.qualifier = some name → denoted? (inner ++ level :: outer) name = some r.source

/-- People whose leader is a person, both under one explicit alias. -/
def sameAlias : Supply Query := do
  let person ← Query.table "persons"
  let leader ← Query.table "persons"
  let isLeader := .equal (leader.column "id") (person.column "leader_id")
  return (person.aliased "p").restrict (.exists ((leader.aliased "p").restrict isLeader))

/-- The first person, if a query that reads the same occurrence in its FROM clause has a row. -/
def readTwice : Supply Query := do
  let person ← Query.table "persons"
  let inside ← Query.ofQuery person (some "t")
  let isFirst := .equal (person.column "id") (.value (.integer 1))
  return person.restrict (.exists (inside.restrict isFirst))

/-- **References can be captured**: by an explicit alias that is spelled like the name of the
outer source, and when a FROM clause in between reads the same occurrence inside a subquery, where
it has another name. -/
theorem captured_references :
    (∃ σ : Session, σ.Reachable ∧ .query (sameAlias.run 0).1 ∈ σ.held ∧
      ∃ sql statement, (sameAlias.run 0).1.compile people = .ok sql ∧
        (sameAlias.run 0).1.statement people = .ok statement ∧ ¬statement.KeepsReferences) ∧
    ∃ σ : Session, σ.Reachable ∧ .query (readTwice.run 0).1 ∈ σ.held ∧
      ∃ sql statement, (readTwice.run 0).1.compile people = .ok sql ∧
        (readTwice.run 0).1.statement people = .ok statement ∧ ¬statement.KeepsReferences := by
  constructor
  · -- The inner source has the alias of the outer one, and takes over the reference to it.
    have hperson := Session.Reachable.start.table "persons"
    have hleader := hperson.table "persons"
    have hnamedLeader := hleader.aliased (List.mem_cons_self ..) "p"
    have hinside := hnamedLeader.restrict (List.mem_cons_self ..)
      (.equal (.column (some ⟨1⟩) "id") (.column (some ⟨0⟩) "leader_id")) fun p hp => by cases hp
    have hnamed := hinside.aliased (List.mem_cons_of_mem _ (List.mem_cons_of_mem _
      (List.mem_cons_of_mem _ (List.mem_cons_self ..)))) "p"
    have hall := hnamed.restrict (List.mem_cons_self ..) (.exists _)
      (List.forall_mem_singleton.mpr (List.mem_cons_of_mem _ (List.mem_cons_self ..)))
    obtain ⟨sql, hsql⟩ : ∃ sql, (sameAlias.run 0).1.compile people = .ok sql :=
      exists_ok (by decide +kernel)
    let inside : Level := ⟨[⟨⟨1⟩, some "p"⟩], [⟨⟨1⟩, some "p", true⟩]⟩
    let around : Level := ⟨[⟨⟨0⟩, some "p"⟩], [⟨⟨0⟩, some "p", true⟩]⟩
    obtain ⟨s, hs, hsite⟩ : ∃ s, (sameAlias.run 0).1.statement people = .ok s ∧
        .reference [inside, around] ⟨⟨0⟩, some "p"⟩ ∈ s.allSites :=
      Query.exists_site (by decide +kernel)
    refine ⟨_, hall, List.mem_cons_self .., sql, s, hsql, hs, ?_⟩
    intro hkeeps
    exact absurd (hkeeps [inside] around [] _ "p" hsite (by decide) (by decide) rfl) (by decide)
  · -- The reference is written with the name inside the subquery, which nothing outside goes by.
    have hperson := Session.Reachable.start.table "persons"
    have hinside := hperson.ofQuery (List.mem_cons_self ..) (some "t")
    have hfirst := hinside.restrict (List.mem_cons_self ..)
      (.equal (.column (some ⟨0⟩) "id") (.value (.integer 1))) fun p hp => by cases hp
    have hall := hfirst.restrict (List.mem_cons_of_mem _ (List.mem_cons_of_mem _
      (List.mem_cons_self ..))) (.exists _)
      (List.forall_mem_singleton.mpr (List.mem_cons_self ..))
    obtain ⟨sql, hsql⟩ : ∃ sql, (readTwice.run 0).1.compile people = .ok sql :=
      exists_ok (by decide +kernel)
    let inside : Level :=
      ⟨[⟨⟨1⟩, some "t"⟩], [⟨⟨1⟩, some "t", true⟩, ⟨⟨0⟩, some "persons", false⟩]⟩
    let around : Level := ⟨[⟨⟨0⟩, some "persons"⟩], [⟨⟨0⟩, some "persons", false⟩]⟩
    obtain ⟨s, hs, hsite⟩ : ∃ s, (readTwice.run 0).1.statement people = .ok s ∧
        .reference [inside, around] ⟨⟨0⟩, some "persons0"⟩ ∈ s.allSites :=
      Query.exists_site (by decide +kernel)
    refine ⟨_, hall, List.mem_cons_self .., sql, s, hsql, hs, ?_⟩
    intro hkeeps
    exact absurd (hkeeps [inside] around [] _ "persons0" hsite (by decide) (by decide) rfl)
      (by decide)

end RelationalQuery
