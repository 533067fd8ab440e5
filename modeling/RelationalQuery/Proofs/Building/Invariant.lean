/-
  RelationalQuery.Proofs.Building.Invariant — what every session keeps.

  The invariant has three parts. Every id in a held value was drawn before. Every FROM tree has
  its shape: leaves only, named targets, distinct ids. And the held values agree on ids: an id
  that belongs to a table or to a target in one of them belongs to a named leaf in all of them.

  An operation keeps the invariant when the leaves of its value are new ones with a name, or
  known from before; that is how every operation is shown to keep it. The one kind of new leaf
  without a name is an unnamed subquery, which is never pinned.

  Main definitions:
    * `Session.Invariant`: the invariant.
    * `Session.Admits`: what makes a new value keep it.

  Main statements:
    * `Session.Invariant.add`: a value that is admitted keeps the invariant.
    * `Session.Invariant.sound`: a held query is sound.
-/

import RelationalQuery.Proofs.Building.Fork
import RelationalQuery.Proofs.Building.Session

namespace RelationalQuery

/-! ## Held values -/

namespace Held

/-- The leaves that the FROM tree of a value names together. -/
def occurrences : Held → List Occurrence
  | .query q => q.occurrences
  | .source s => s.occurrences
  | .relation r => r.targets.flatMap Source.occurrences

/-- The ids that always have a name. -/
def pinned : Held → List SourceId
  | .query q => q.pinned
  | .source s => s.pinned
  | .relation r => r.targets.flatMap fun t => t.id :: t.pinned

/-- The FROM trees of a value have their shape, and the queries in it are sound. -/
def Formed : Held → Prop
  | .query q => (∀ s, q.source = some s → s.Formed) ∧ ∀ p, q.Nests p → p.Sound
  | .source s => s.Formed ∧ ∀ p, s.Nests p → p.Sound
  | .relation r => (∀ t ∈ r.targets, t.IsLeaf ∧ t.name?.isSome) ∧ ∀ p, r.Nests p → p.Sound

end Held

namespace Session

/-! ## The invariant -/

/-- What every session keeps. -/
structure Invariant (σ : Session) : Prop where
  below : ∀ v ∈ σ.held, ∀ o ∈ v.occurrences, o.id.index < σ.next
  pinned_below : ∀ v ∈ σ.held, ∀ id ∈ v.pinned, id.index < σ.next
  formed : ∀ v ∈ σ.held, v.Formed
  coherent : ∀ v ∈ σ.held, ∀ w ∈ σ.held, Coherent v.pinned w.occurrences

/-- The leaf is one of a held value. -/
def Known (σ : Session) (o : Occurrence) : Prop := ∃ v ∈ σ.held, o ∈ v.occurrences

/-- The id is pinned in a held value. -/
def Pins (σ : Session) (id : SourceId) : Prop := ∃ v ∈ σ.held, id ∈ v.pinned

/-- What makes a new value keep the invariant. -/
structure Admits (σ : Session) (next : Nat) (v : Held) : Prop where
  next_le : σ.next ≤ next
  formed : v.Formed
  /-- Leaves are known, or are renamed ones, or were drawn. -/
  origin : ∀ o ∈ v.occurrences,
    (o.id.index < next ∧ (o.name.isSome ∨ σ.next ≤ o.id.index)) ∨ σ.Known o
  /-- Ids were pinned already, or were drawn for leaves with a name. -/
  pins : ∀ id ∈ v.pinned, (σ.next ≤ id.index ∧ id.index < next ∧
    ∀ o ∈ v.occurrences, o.id = id → o.name.isSome) ∨ σ.Pins id

namespace Invariant

variable {σ : Session}

/-- The id of a known leaf was drawn before. -/
theorem known_below (h : σ.Invariant) {o : Occurrence} (ho : σ.Known o) :
    o.id.index < σ.next := by
  obtain ⟨v, hv, hmem⟩ := ho
  exact h.below v hv o hmem

/-- A pinned id was drawn before. -/
theorem pins_below (h : σ.Invariant) {id : SourceId} (hid : σ.Pins id) : id.index < σ.next := by
  obtain ⟨v, hv, hmem⟩ := hid
  exact h.pinned_below v hv id hmem

/-- A known leaf with a pinned id has a name. -/
theorem pins_named (h : σ.Invariant) {id : SourceId} (hid : σ.Pins id) {o : Occurrence}
    (ho : σ.Known o) (heq : o.id = id) : o.name.isSome := by
  obtain ⟨v, hv, hpinned⟩ := hid
  obtain ⟨w, hw, hmem⟩ := ho
  exact h.coherent v hv w hw id hpinned o hmem heq

/-- **A value that is admitted keeps the invariant.** -/
theorem add (h : σ.Invariant) {next : Nat} {v : Held} (ha : σ.Admits next v) :
    Invariant ⟨next, v :: σ.held⟩ := by
  have hle := ha.next_le
  -- Of an id that was pinned before, a leaf of the new value is a known one or has a name.
  have hnew : ∀ id, σ.Pins id → ∀ o ∈ v.occurrences, o.id = id → o.name.isSome := by
    intro id hid o ho heq
    rcases ha.origin o ho with ⟨_, hnamed | hdrawn⟩ | hknown
    · exact hnamed
    · have hbelow := h.pins_below hid
      rw [heq] at hdrawn
      omega
    · exact h.pins_named hid hknown heq
  constructor
  · refine List.forall_mem_cons.mpr ⟨?_, ?_⟩
    · intro o ho
      rcases ha.origin o ho with ⟨hbelow, _⟩ | hknown
      · exact hbelow
      · exact Nat.lt_of_lt_of_le (h.known_below hknown) hle
    · intro w hw o ho
      exact Nat.lt_of_lt_of_le (h.below w hw o ho) hle
  · refine List.forall_mem_cons.mpr ⟨?_, ?_⟩
    · intro id hid
      rcases ha.pins id hid with ⟨_, hbelow, _⟩ | hpins
      · exact hbelow
      · exact Nat.lt_of_lt_of_le (h.pins_below hpins) hle
    · intro w hw id hid
      exact Nat.lt_of_lt_of_le (h.pinned_below w hw id hid) hle
  · exact List.forall_mem_cons.mpr ⟨ha.formed, h.formed⟩
  · -- Ids and leaves can each be of the new value or of a held one: four cases.
    refine List.forall_mem_cons.mpr ⟨List.forall_mem_cons.mpr ⟨?_, ?_⟩, ?_⟩
    · intro id hid o ho heq
      rcases ha.pins id hid with ⟨_, _, hnamed⟩ | hpins
      · exact hnamed o ho heq
      · exact hnew id hpins o ho heq
    · intro w hw id hid o ho heq
      rcases ha.pins id hid with ⟨hdrawn, _, _⟩ | hpins
      · -- An id that was only drawn now is not that of a held leaf.
        have hbelow := h.below w hw o ho
        rw [heq] at hbelow
        omega
      · exact h.pins_named hpins ⟨w, hw, ho⟩ heq
    · intro w hw
      refine List.forall_mem_cons.mpr ⟨?_, h.coherent w hw⟩
      intro id hid
      exact hnew id ⟨w, hw, hid⟩

/-- A held query is sound. -/
theorem sound (h : σ.Invariant) {q : Query} (hq : .query q ∈ σ.held) : q.Sound := by
  obtain ⟨hformed, hnested⟩ := h.formed _ hq
  refine .intro ?_ hnested
  intro s hs
  have hcoherent : Coherent q.pinned q.occurrences := h.coherent _ hq _ hq
  rw [Query.pinned_eq, Query.occurrences_eq, hs] at hcoherent
  exact ⟨hformed s hs, hcoherent⟩

end Invariant

/-! ## Admission -/

section Admission

variable {σ : Session}

/-- What stands in the FROM tree is known. -/
structure Covers (σ : Session) (s : Source) : Prop where
  known : ∀ o ∈ s.occurrences, σ.Known o
  pins : ∀ id ∈ s.pinned, σ.Pins id

/-- What covers a tree covers its leaves. -/
theorem Covers.leaf {s t : Source} (h : σ.Covers s) (ht : t ∈ s.leaves) : σ.Covers t :=
  ⟨fun o ho => h.known o (Source.occurrences_subset ht ho),
    fun id hid => h.pins id (Source.pinned_subset ht hid)⟩

/-- A session covers the sources that it holds. -/
theorem covers_source {s : Source} (h : .source s ∈ σ.held) : σ.Covers s :=
  ⟨fun _ ho => ⟨_, h, ho⟩, fun _ hid => ⟨_, h, hid⟩⟩

/-- A session covers the source of a query that it holds. -/
theorem covers_query {q : Query} (h : .query q ∈ σ.held) {s : Source} (hs : q.source = some s) :
    σ.Covers s := by
  constructor
  · intro o ho
    refine ⟨_, h, ?_⟩
    rw [Held.occurrences, Query.occurrences_eq, hs]
    exact ho
  · intro id hid
    refine ⟨_, h, ?_⟩
    rw [Held.pinned, Query.pinned_eq, hs]
    exact hid

/-- A session covers the targets of a relation that it holds. -/
theorem covers_relation {r : Relation} (h : .relation r ∈ σ.held) {t : Source}
    (ht : t ∈ r.targets) : σ.Covers t :=
  ⟨fun _ ho => ⟨_, h, List.mem_flatMap.mpr ⟨t, ht, ho⟩⟩,
    fun _ hid => ⟨_, h, List.mem_flatMap.mpr ⟨t, ht, List.mem_cons_of_mem _ hid⟩⟩⟩

/-- A value whose new leaves have names is admitted. -/
theorem Admits.of_named (h : σ.Invariant) {next : Nat} {v : Held} (hle : σ.next ≤ next)
    (hformed : v.Formed)
    (horigin : ∀ o ∈ v.occurrences, (o.id.index < next ∧ o.name.isSome) ∨ σ.Known o)
    (hpins : ∀ id ∈ v.pinned, (σ.next ≤ id.index ∧ id.index < next) ∨ σ.Pins id) :
    σ.Admits next v := by
  refine ⟨hle, hformed, ?_, ?_⟩
  · intro o ho
    exact (horigin o ho).imp (fun hnew => ⟨hnew.1, Or.inl hnew.2⟩) id
  · intro id hid
    refine (hpins id hid).imp (fun hnew => ⟨hnew.1, hnew.2, ?_⟩) (fun hold => hold)
    -- A pinned id that is new is not known yet, so a leaf with it is a new one, and has a name.
    intro o ho heq
    rcases horigin o ho with ⟨_, hnamed⟩ | hknown
    · exact hnamed
    · have hbelow := h.known_below hknown
      rw [heq] at hbelow
      omega

/-- A value all of whose leaves are known is admitted. -/
theorem Admits.of_known (h : σ.Invariant) {v : Held} (hformed : v.Formed)
    (hknown : ∀ o ∈ v.occurrences, σ.Known o) (hpins : ∀ id ∈ v.pinned, σ.Pins id) :
    σ.Admits σ.next v :=
  .of_named h (Nat.le_refl _) hformed (fun o ho => Or.inr (hknown o ho))
    fun id hid => Or.inr (hpins id hid)

/-- A query over a source that is admitted is admitted. -/
theorem Admits.query {next : Nat} {s : Source} (h : σ.Admits next (.source s)) {q : Query}
    (hs : q.source = some s) (hsound : ∀ p ∈ q.subqueries, p.Sound) :
    σ.Admits next (.query q) := by
  -- The occurrences and the pins of a query are those of its source.
  have hoccurrences : (Held.query q).occurrences = s.occurrences := by
    rw [Held.occurrences, Query.occurrences_eq, hs]
    rfl
  have hpinned : (Held.query q).pinned = s.pinned := by
    rw [Held.pinned, Query.pinned_eq, hs]
    rfl
  refine ⟨h.next_le, ⟨?_, ?_⟩, hoccurrences ▸ h.origin, ?_⟩
  · intro s' hs'
    rw [hs] at hs'
    cases hs'
    exact h.formed.1
  · intro p hp
    rcases hp with hp | ⟨s', hs', hp⟩
    · exact hsound p hp
    · rw [hs] at hs'
      cases hs'
      exact h.formed.2 p hp
  · rw [hpinned, hoccurrences]
    exact h.pins

/-- Drawn leaves with a name, in place of known ones. -/
theorem renumbered_origin {ts : List Source} (start : Nat)
    (hts : ∀ t ∈ ts, (t.IsLeaf ∧ t.name?.isSome) ∧ σ.Covers t) :
    ∀ o ∈ (Source.renumbered start ts).flatMap Source.occurrences,
      ((start ≤ o.id.index ∧ o.id.index < start + ts.length) ∧ o.name.isSome) ∨ σ.Known o := by
  intro o ho
  obtain ⟨u, hu, hmem⟩ := List.mem_flatMap.mp ho
  obtain ⟨t, ht, k, hlow, hhigh, rfl⟩ := Source.mem_renumbered ts start u hu
  obtain ⟨⟨hleaf, hnamed⟩, hcovers⟩ := hts t ht
  rcases Source.mem_occurrences_withId hleaf hmem with rfl | hold
  · -- The leaf itself has the new id and its old name.
    left
    rw [Source.id_occurrence, Source.id_withId]
    refine ⟨⟨hlow, hhigh⟩, ?_⟩
    show ((t.withId ⟨k⟩).name?).isSome
    rw [Source.name?_withId]
    exact hnamed
  · exact Or.inr (hcovers.known o hold)

/-- The pins of numbered targets are their new ids, or were pinned before. -/
theorem renumbered_pins {ts : List Source} (start : Nat)
    (hts : ∀ t ∈ ts, (t.IsLeaf ∧ t.name?.isSome) ∧ σ.Covers t) :
    ∀ id ∈ (Source.renumbered start ts).flatMap fun t => t.id :: t.pinned,
      (start ≤ id.index ∧ id.index < start + ts.length) ∨ σ.Pins id := by
  intro id hid
  obtain ⟨u, hu, hmem⟩ := List.mem_flatMap.mp hid
  obtain ⟨t, ht, k, hlow, hhigh, rfl⟩ := Source.mem_renumbered ts start u hu
  obtain ⟨⟨hleaf, _⟩, hcovers⟩ := hts t ht
  rw [List.mem_cons, Source.id_withId] at hmem
  rcases hmem with rfl | hinner
  · exact Or.inl ⟨hlow, hhigh⟩
  · rcases Source.mem_pinned_withId hleaf hinner with ⟨rfl, _⟩ | hold
    · exact Or.inl ⟨hlow, hhigh⟩
    · exact Or.inr (hcovers.pins id hold)

end Admission

end Session

end RelationalQuery
