/-
  RelationalQuery.Proofs.Row.Variants — which path of names leads to which relation.

  Variants are found by logical names, from the root down, as joins are attached. Several joins of
  one source may have one name. Then the last of them that has anything to show stands for all,
  with what is below it; what an earlier one shows cannot be reached.

  Main definitions:
    * `RowShape.at?`: the variant that a path of names leads to.
    * `Edge.At`: the edges that a path of names leads to.
    * `Edge.Shown`: the edge that stands for all siblings of its name.

  Main statements:
    * `Edge.at?_eq_some_iff`: a path leads to the variants of the shown edges.
    * `Query.variants_nested`: the variants of a query's rows, and the columns that they expose.
-/

import RelationalQuery.Proofs.Row.Slices

namespace RelationalQuery

/-! ## Named entries -/

section Named

variable {α : Type}

/-- Among named entries a name is found with its own entry. -/
theorem lookup_named (name : String) (entryOf : String → Option α) : (names : List String) →
    (named names entryOf).lookup name = if name ∈ names then entryOf name else none
  | [] => rfl
  | other :: rest => by
      have ih := lookup_named name entryOf rest
      cases hentry : entryOf other with
      | none =>
          -- A name without an entry is left out.
          have hskip : named (other :: rest) entryOf = named rest entryOf := by
            rw [named, List.filterMap_cons, hentry]
            rfl
          rw [hskip, ih]
          by_cases heq : name = other
          · subst heq
            simp [hentry]
          · simp [heq]
      | some entry =>
          rw [named_cons hentry, List.lookup_cons]
          by_cases heq : name = other
          · subst heq
            simp [hentry]
          · rw [beq_eq_false_iff_ne.mpr heq, ih]
            simp [heq]

/-- The latest entry of a name is its last one. -/
theorem lookup_latest (entries : List (String × α)) (name : String) :
    (latest entries).lookup name = entries.reverse.lookup name := by
  rw [latest, lookup_named]
  split
  · rfl
  · rename_i hnot
    have hnone : (entries.reverse.lookup name).isSome = false := by
      rw [← Bool.not_eq_true, Naming.lookup_isSome, List.map_reverse, List.mem_reverse]
      exact mt List.mem_eraseDups.mpr hnot
    exact (Option.not_isSome_iff_eq_none.mp (Bool.not_eq_true _ ▸ hnone)).symm

end Named

/-! ## Paths -/

/-- The variant that a path of names leads to. -/
def RowShape.at? (shape : RowShape) : List String → Option RowShape
  | [] => some shape
  | name :: rest => (shape.variants.lookup name).bind (·.at? rest)

namespace Edge

/-- The edges of the joins below. -/
def nested : Edge → List Edge
  | .mk _ _ _ below => below

/-- The edge is included, or one below it is. -/
def Carries (e : Edge) : Prop := e.included ≠ []

/-- The edge stands for all siblings of its name: it carries something, and no later one does. -/
def Shown (edges : List Edge) (e : Edge) : Prop :=
  ∃ front back, edges = front ++ e :: back ∧ e.Carries ∧
    ∀ other ∈ back, other.name = e.name → ¬other.Carries

/-- The edges that a path of names leads to, where `among` says which of several siblings count. -/
inductive At (among : List Edge → Edge → Prop) : List Edge → List String → Edge → Prop
  | here {edges : List Edge} {e : Edge} (h : among edges e) : At among edges [e.name] e
  | under {edges : List Edge} {e target : Edge} {path : List String} (h : among edges e)
      (hunder : At among e.nested path target) : At among edges (e.name :: path) target

theorem Shown.mem {edges : List Edge} {e : Edge} (h : Shown edges e) : e ∈ edges := by
  obtain ⟨front, back, rfl, _, _⟩ := h
  exact List.mem_append_right _ (List.mem_cons_self ..)

theorem Shown.carries {edges : List Edge} {e : Edge} (h : Shown edges e) : e.Carries := by
  obtain ⟨_, _, _, hcarries, _⟩ := h
  exact hcarries

/-- More edges that count, more that are led to. -/
theorem At.mono {among more : List Edge → Edge → Prop} (h : ∀ edges e, among edges e → more edges e)
    {edges : List Edge} {path : List String} {e : Edge} (hat : At among edges path e) :
    At more edges path e := by
  induction hat with
  | here hhere => exact .here (h _ _ hhere)
  | under hhere _ ih => exact .under (h _ _ hhere) ih

/-- What a path leads to through shown edges carries something. -/
theorem At.carries {edges : List Edge} {path : List String} {e : Edge}
    (h : At Shown edges path e) : e.Carries := by
  induction h with
  | here h => exact h.carries
  | under _ _ ih => exact ih

/-- A path of two names or more leads on from the edge of the first. -/
theorem At.cons_iff {among : List Edge → Edge → Prop} {edges : List Edge} {name next : String}
    {path : List String} {target : Edge} : At among edges (name :: next :: path) target ↔
      ∃ e, among edges e ∧ e.name = name ∧ At among e.nested (next :: path) target := by
  constructor
  · rintro (_ | ⟨h, hunder⟩)
    exact ⟨_, h, rfl, hunder⟩
  · rintro ⟨e, h, rfl, hunder⟩
    exact .under h hunder

theorem At.singleton_iff {among : List Edge → Edge → Prop} {edges : List Edge} {name : String}
    {e : Edge} : At among edges [name] e ↔ among edges e ∧ e.name = name := by
  constructor
  · rintro (h | ⟨_, hunder⟩)
    · exact ⟨h, rfl⟩
    · cases hunder
  · rintro ⟨h, rfl⟩
    exact .here h

/-! ## Variants of siblings -/

variable (widthOf : ResultColumn → Nat)

/-- An edge has a node just when it carries something. -/
theorem node_isSome_iff (e : Edge) : (e.node widthOf).isSome ↔ e.Carries := by
  rw [Carries, ne_eq, ← node_eq_none_iff widthOf, Option.isSome_iff_ne_none]

variable {widthOf}

/-- The variants of an edge with a node are those of the edges below it. -/
theorem variants_node {e : Edge} {v : RowShape} (h : e.node widthOf = some v) :
    v.variants = latest (nodes widthOf e.nested) := by
  obtain ⟨name, before, own, below⟩ := e
  cases own with
  | some own =>
      rw [node] at h
      rw [← Option.some.inj h]
      rfl
  -- An edge that is not included has a node only for what is below it.
  | none =>
      rw [node] at h
      split at h
      · cases h
      · rw [← Option.some.inj h]
        rfl

theorem lookup_own_eq_some_iff {name : String} {v : RowShape} (e : Edge) :
    ((e.node widthOf).map (e.name, ·)).toList.reverse.lookup name = some v ↔
      e.name = name ∧ e.node widthOf = some v := by
  cases e.node widthOf with
  | none => simp
  | some own =>
      by_cases h : name = e.name
      · simp [h]
      · have hne : (name == e.name) = false := beq_eq_false_iff_ne.mpr h
        simp [List.lookup_cons, hne, Ne.symm h]

/-- A name has no variant when no edge of that name carries anything. -/
theorem lookup_nodes_eq_none_iff {name : String} (edges : List Edge) :
    (nodes widthOf edges).reverse.lookup name = none ↔
      ∀ e ∈ edges, e.name = name → ¬e.Carries := by
  induction edges with
  | nil => simp [nodes]
  | cons first rest ih =>
      rw [nodes, List.reverse_append, lookup_append, Option.or_eq_none_iff, ih,
        List.forall_mem_cons, and_comm]
      refine and_congr_left fun _ => ?_
      rw [Option.eq_none_iff_forall_ne_some, ← node_isSome_iff widthOf,
        Option.isSome_iff_exists, not_exists, forall_comm]
      simp only [ne_eq, lookup_own_eq_some_iff, not_and]

/-- Of siblings with one name, the variant is that of the shown edge. -/
theorem lookup_nodes_eq_some_iff {name : String} {v : RowShape} (edges : List Edge) :
    (nodes widthOf edges).reverse.lookup name = some v ↔
      ∃ e, Shown edges e ∧ e.name = name ∧ e.node widthOf = some v := by
  induction edges with
  | nil =>
      refine iff_of_false (by simp [nodes]) ?_
      rintro ⟨e, h, _⟩
      exact List.not_mem_nil h.mem
  | cons first rest ih =>
      rw [nodes, List.reverse_append, lookup_append, Option.or_eq_some_iff, ih,
        lookup_nodes_eq_none_iff rest]
      constructor
      · rintro (⟨e, ⟨front, back, rfl, hcarries, hback⟩, hname, hnode⟩ | ⟨hrest, hfirst⟩)
        · exact ⟨e, ⟨first :: front, back, rfl, hcarries, hback⟩, hname, hnode⟩
        · -- No later edge has the name and carries anything, so the first one is shown.
          obtain ⟨rfl, hnode⟩ := (lookup_own_eq_some_iff first).mp hfirst
          have hcarries : first.Carries :=
            (node_isSome_iff widthOf first).mp (Option.isSome_of_eq_some hnode)
          exact ⟨first, ⟨[], rest, rfl, hcarries, hrest⟩, rfl, hnode⟩
      · rintro ⟨e, ⟨front, back, hedges, hcarries, hback⟩, rfl, hnode⟩
        cases front with
        | nil =>
            obtain ⟨rfl, rfl⟩ := List.cons.inj hedges
            exact .inr ⟨hback, (lookup_own_eq_some_iff first).mpr ⟨rfl, hnode⟩⟩
        | cons _ front =>
            obtain ⟨rfl, rfl⟩ := List.cons.inj hedges
            exact .inl ⟨e, ⟨front, back, rfl, hcarries, hback⟩, rfl, hnode⟩

/-- **A path leads to the variant of the shown edge with that path.** -/
theorem at?_eq_some_iff (widthOf : ResultColumn → Nat) (layout : Layout) :
    (path : List String) → path ≠ [] → ∀ (edges : List Edge) (v : RowShape),
      ((⟨layout, latest (nodes widthOf edges)⟩ : RowShape).at? path = some v ↔
        ∃ e, At Shown edges path e ∧ e.node widthOf = some v)
  | [name], _, edges, v => by
      rw [RowShape.at?, lookup_latest]
      simp only [RowShape.at?, Option.bind_fun_some]
      rw [lookup_nodes_eq_some_iff]
      simp only [At.singleton_iff, and_assoc]
  | name :: next :: path, _, edges, v => by
      rw [RowShape.at?, lookup_latest, Option.bind_eq_some_iff]
      constructor
      · rintro ⟨⟨layout, variants⟩, hfirst, hrest⟩
        obtain ⟨e, hshown, hname, hnode⟩ := (lookup_nodes_eq_some_iff edges).mp hfirst
        -- Below, the edges of the shown edge are looked at, and no others.
        obtain rfl : variants = _ := variants_node hnode
        obtain ⟨target, hat, htarget⟩ :=
          (at?_eq_some_iff widthOf _ (next :: path) nofun e.nested v).mp hrest
        exact ⟨target, At.cons_iff.mpr ⟨e, hshown, hname, hat⟩, htarget⟩
      · rintro ⟨target, hat, htarget⟩
        obtain ⟨e, hshown, hname, hat⟩ := At.cons_iff.mp hat
        obtain ⟨⟨layout, variants⟩, hnode⟩ :=
          Option.isSome_iff_exists.mp ((node_isSome_iff widthOf e).mpr hshown.carries)
        obtain rfl : variants = _ := variants_node hnode
        exact ⟨_, (lookup_nodes_eq_some_iff edges).mpr ⟨e, hshown, hname, hnode⟩,
          (at?_eq_some_iff widthOf _ (next :: path) nofun e.nested v).mpr ⟨target, hat, htarget⟩⟩

/-- An included edge that a path leads to is among the included edges. -/
theorem At.mem_includedAll {edges : List Edge} {path : List String} {e : Edge}
    (h : At Shown edges path e) : ∀ block ∈ e.included, block ∈ includedAll edges := by
  -- Whatever is included in an edge is included in the edges that it is one of.
  have hmem : ∀ (edges : List Edge) (e : Edge), e ∈ edges →
      ∀ block ∈ e.included, block ∈ includedAll edges := by
    intro edges
    induction edges with
    | nil => exact fun e he => absurd he List.not_mem_nil
    | cons first rest ih =>
        intro e he block hblock
        rw [includedAll, List.mem_append]
        rcases List.mem_cons.mp he with rfl | he
        · exact .inl hblock
        · exact .inr (ih e he block hblock)
  induction h with
  | here h => exact hmem _ _ h.mem
  | @under edges e target path h _ ih =>
      intro block hblock
      refine hmem _ _ h.mem block ?_
      obtain ⟨name, before, own, below⟩ := e
      exact List.mem_append_right _ (ih block hblock)

end Edge

/-! ## Queries -/

/-- The columns of a slice. -/
theorem Layout.bind_slice {widthOf : ResultColumn → Nat} {before own after : List ResultColumn}
    {names : List String} (h : names.length = widthSum widthOf (before ++ own ++ after)) :
    (Layout.range (Edge.slice widthOf (before, own)).1 (Edge.slice widthOf (before, own)).2).bind
      names = .ok (((numbered names).drop (widthSum widthOf before)).take
        (widthSum widthOf own)) := by
  rw [widthSum_append, widthSum_append] at h
  show (if _ ∨ _ then _ else _) = _
  rw [if_neg (by simp only [Edge.slice]; omega)]
  simp only [Edge.slice, List.drop_take, Nat.add_sub_cancel_left]

/-- **Rows are nested as relations are.** When a query has a row shape, every entry of its select
list has a width, and a path of names leads to a variant just when it leads to an edge that stands
for its siblings at every step, and then to the variant of that edge. In particular:
  * every included edge that is so reached has a variant, which in a statement with the query's
    columns exposes the columns of the edge's own entries and no others;
  * where a path leads to a variant, there is an edge with that path that is included or has an
    included edge below it. -/
theorem Query.variants_nested {schema : Schema} {q : Query} {shape : RowShape}
    (h : q.rowShape schema = .ok shape) : ∃ (widthOf : ResultColumn → Nat) (total : Nat),
      (∀ column ∈ q.emitted, column.width schema q = .ok (widthOf column)) ∧
      q.width schema = .ok total ∧
      (∀ path, path ≠ [] → ∀ v, shape.at? path = some v ↔
        ∃ e, Edge.At Edge.Shown q.edges path e ∧ e.node widthOf = some v) ∧
      (∀ path name before own below,
        Edge.At Edge.Shown q.edges path (.mk name before (some own) below) →
          ∃ v after, shape.at? path = some v ∧ q.emitted = before ++ own ++ after ∧
            ∀ names : List String, names.length = total → v.layout.bind names =
              .ok (((numbered names).drop (widthSum widthOf before)).take (widthSum widthOf own))) ∧
      ∀ path v, path ≠ [] → shape.at? path = some v →
        ∃ e, Edge.At (fun edges e => e ∈ edges) q.edges path e ∧ e.Carries := by
  obtain ⟨hwidths, htotal, rfl⟩ := Query.of_rowShape h
  have hat : ∀ path, path ≠ [] → ∀ v, _ := fun path hpath v =>
    Edge.at?_eq_some_iff (q.columnsOf schema) .all path hpath q.edges v
  refine ⟨_, _, hwidths, htotal, hat, ?_, ?_⟩
  · intro path name before own below he
    have hpath : path ≠ [] := by
      rintro rfl
      cases he
    -- The columns of an edge stand in one piece among those that are emitted.
    obtain ⟨after, hafter⟩ := q.chained.stands (before, own)
      (he.mem_includedAll _ (List.mem_append_left _ (List.mem_cons_self ..)))
    refine ⟨_, after, (hat path hpath _).mpr ⟨_, he, rfl⟩, hafter, ?_⟩
    intro names hnames
    exact Layout.bind_slice (hafter ▸ hnames)
  · intro path v hpath hv
    obtain ⟨e, he, _⟩ := (hat path hpath v).mp hv
    exact ⟨e, he.mono fun _ _ => Edge.Shown.mem, he.carries⟩

/-- Of the two leaders of people who are led, the path of their name leads to the later one. -/
theorem ledPeople_nested : ∃ shape v, ledPeople.rowShape people = .ok shape ∧
    shape.at? ["leader"] = some v ∧ ∀ names : List String, names.length = 9 →
      v.layout.bind names = .ok (((numbered names).drop 6).take 3) := by
  obtain ⟨shape, hshape⟩ : ∃ shape, ledPeople.rowShape people = .ok shape :=
    exists_ok (by decide +kernel)
  obtain ⟨widthOf, total, hwidths, htotal, _, hnested, _⟩ := Query.variants_nested hshape
  obtain rfl : 9 = total := Except.ok.inj htotal
  have hthree := ledPeople_widths hwidths
  -- The second of the two joins, which is the one that stands for both.
  have hlast : Edge.Shown ledPeople.edges
      (.mk "leader" [.star ⟨0⟩, .star ⟨2⟩] (some [.star ⟨3⟩]) []) :=
    ⟨[.mk "leader" [.star ⟨0⟩] (some [.star ⟨2⟩]) []], [], rfl, nofun, nofun⟩
  obtain ⟨v, _, hv, _, hbind⟩ := hnested _ _ _ _ _ (.here hlast)
  refine ⟨shape, v, hshape, hv, fun names hnames => ?_⟩
  rw [hbind names hnames]
  simp [widthSum, hthree]

/-- People joined to leaders with their countries, and then to leaders once more. -/
def leadersTwice : Supply Query := do
  let people ← Query.table "persons"
  let leader ← Relation.foreignKey "leader" "persons" [("leader_id", "id")]
  let country ← Relation.foreignKey "country" "countries" [("id", "id")]
  let located ← leader.includeOptional [country]
  let people ← people.joinOptional [located]
  people.includeOptional [leader]

/-- The countries are included below the first leaders, and cannot be reached: the later leaders,
who carry none, stand for both. -/
theorem leadersTwice_hidden : ∃ shape before own below,
    (leadersTwice.run 0).1.rowShape (people.declare "countries" ["id", "name"]) = .ok shape ∧
    Edge.At (fun edges e => e ∈ edges) (leadersTwice.run 0).1.edges ["leader", "country"]
      (.mk "country" before (some own) below) ∧
    shape.at? ["leader", "country"] = none := by
  have hcountry : Edge.At (fun edges e => e ∈ edges) (leadersTwice.run 0).1.edges
      ["leader", "country"] (.mk "country" [.star ⟨0⟩] (some [.star ⟨5⟩]) []) :=
    .under (e := .mk "leader" [.star ⟨0⟩] none _) (List.mem_cons_self ..)
      (.here (List.mem_cons_self ..))
  exact ⟨⟨.all, [("leader", ⟨.range 5 8, []⟩)]⟩, _, _, _, rfl, hcountry, rfl⟩

end RelationalQuery
