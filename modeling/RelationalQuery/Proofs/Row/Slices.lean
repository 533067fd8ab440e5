/-
  RelationalQuery.Proofs.Row.Slices — which columns of a row belong to which relation.

  A select list is emitted by one walk over the joins, and a row is cut up by another one, which
  counts entries and reads column offsets off a table. The reference says what is meant: every join
  is an edge that knows which entries are emitted before its own, and the slice of an included edge
  is as wide as its own entries and begins after all columns before them.

  Main definitions:
    * `latest`: named entries, of which a later one of the same name takes the earlier one's place.
    * `Edge`, `Join.edges`: the joins of a query with what they emit, and where.
    * `Edge.nodes`, `Edge.slice`: the reference.

  Main statements:
    * `Join.shapes_eq`: the cursor after joins is past all that they emit, and their variants
      are the reference's.
    * `Query.of_rowShape`, `Query.rowShape_eq_reference`: of whole queries.
-/

import RelationalQuery.Proofs.Building.Reachable
import RelationalQuery.Proofs.Statement.Scoping
import RelationalQuery.Row.Projection

namespace RelationalQuery

/-! ## Named entries -/

section Named

variable {α : Type}

/-- The names with their entries. -/
def named (names : List String) (entryOf : String → Option α) : List (String × α) :=
  names.filterMap fun name => (entryOf name).map (name, ·)

/-- Every name once, in the place of its first entry and with its last one. -/
def latest (entries : List (String × α)) : List (String × α) :=
  named (entries.map (·.1)).eraseDups fun name => entries.reverse.lookup name

/-- A name with an entry is listed with it. -/
theorem named_cons {name : String} {entryOf : String → Option α} {entry : α}
    (h : entryOf name = some entry) (rest : List String) :
    named (name :: rest) entryOf = (name, entry) :: named rest entryOf := by
  rw [named, List.filterMap_cons, h]
  rfl

theorem named_append (a b : List String) (entryOf : String → Option α) :
    named (a ++ b) entryOf = named a entryOf ++ named b entryOf := List.filterMap_append

/-- Only the entries of the listed names matter. -/
theorem named_congr {f g : String → Option α} : (names : List String) →
    (∀ name ∈ names, f name = g name) → named names f = named names g
  | [], _ => rfl
  | name :: rest, h => by
      rw [List.forall_mem_cons] at h
      have hrest := named_congr rest h.2
      unfold named at hrest ⊢
      rw [List.filterMap_cons, List.filterMap_cons, h.1, hrest]

theorem nodup_eraseDups : (names : List String) → names.eraseDups.Nodup
  | [] => List.nodup_nil
  | name :: rest => by
      have hothers : name ∉ rest.filter fun other => !other == name := fun hmem => by
        simpa using (List.mem_filter.mp hmem).2
      have hshorter : (rest.filter fun other => !other == name).length ≤ rest.length :=
        List.length_filter_le ..
      rw [List.eraseDups_cons]
      exact List.nodup_cons.mpr ⟨mt List.mem_eraseDups.mp hothers, nodup_eraseDups _⟩
termination_by names => names.length
decreasing_by exact Nat.lt_succ_of_le hshorter

/-- An entry of a name that is there takes the place of the old one. -/
theorem putNamed_named_of_mem {name : String} (entry : α) {entryOf : String → Option α} :
    (names : List String) → names.Nodup → name ∈ names → (∀ n ∈ names, (entryOf n).isSome) →
      putNamed name entry (named names entryOf) =
        named names fun n => if n = name then some entry else entryOf n
  | other :: rest, hnodup, hmem, hsome => by
      obtain ⟨hother, hrest⟩ := List.nodup_cons.mp hnodup
      rw [List.forall_mem_cons] at hsome
      obtain ⟨old, hold⟩ := Option.isSome_iff_exists.mp hsome.1
      rw [named_cons hold, putNamed]
      by_cases heq : other = name
      · subst heq
        rw [if_pos rfl, named_cons (if_pos rfl)]
        -- The name stands once, so the entries behind it are as they were.
        refine congrArg _ (named_congr rest fun n hn => (if_neg ?_).symm)
        intro h
        subst h
        exact hother hn
      · rw [if_neg heq, named_cons ((if_neg heq).trans hold),
          putNamed_named_of_mem entry rest hrest
            ((List.mem_cons.mp hmem).resolve_left fun h => heq h.symm) hsome.2]

/-- An entry of a new name comes last. -/
theorem putNamed_named_of_not_mem {name : String} (entry : α) {entryOf : String → Option α} :
    (names : List String) → name ∉ names →
      putNamed name entry (named names entryOf) = named names entryOf ++ [(name, entry)]
  | [], _ => rfl
  | other :: rest, h => by
      obtain ⟨hother, hrest⟩ := not_or.mp (mt List.mem_cons.mpr h)
      cases hold : entryOf other with
      | none =>
          -- A name without an entry is not listed, so nothing stands in its place.
          have hskip : named (other :: rest) entryOf = named rest entryOf := by
            rw [named, List.filterMap_cons, hold]
            rfl
          rw [hskip, putNamed_named_of_not_mem entry rest hrest]
      | some old =>
          rw [named_cons hold, putNamed, if_neg fun h' => hother h'.symm,
            putNamed_named_of_not_mem entry rest hrest]
          rfl

/-- One more entry. -/
theorem latest_append (entries : List (String × α)) (name : String) (entry : α) :
    latest (entries ++ [(name, entry)]) = putNamed name entry (latest entries) := by
  -- Of the new name the last entry is the new one, and of all others it is what it was.
  have hlookup : ∀ n, (entries ++ [(name, entry)]).reverse.lookup n =
      if n = name then some entry else entries.reverse.lookup n := by
    intro n
    rw [List.reverse_append, List.reverse_singleton, List.singleton_append, List.lookup_cons]
    by_cases h : n = name
    · rw [beq_iff_eq.mpr h, if_pos h]
    · rw [beq_eq_false_iff_ne.mpr h, if_neg h]
  rw [latest, List.map_append, List.eraseDups_append, funext hlookup]
  by_cases hmem : name ∈ entries.map (·.1)
  · have hnone : ([(name, entry)].map (·.1)).removeAll (entries.map (·.1)) = [] := by
      simpa [List.removeAll] using hmem
    rw [hnone, List.eraseDups_nil, List.append_nil, latest,
      putNamed_named_of_mem entry _ (nodup_eraseDups _) (List.mem_eraseDups.mpr hmem)]
    intro n hn
    rw [Naming.lookup_isSome, List.map_reverse, List.mem_reverse]
    exact List.mem_eraseDups.mp hn
  · have hnew : ([(name, entry)].map (·.1)).removeAll (entries.map (·.1)) = [name] := by
      simpa [List.removeAll] using hmem
    have hnot : name ∉ (entries.map (·.1)).eraseDups := mt List.mem_eraseDups.mp hmem
    have hold : named (entries.map (·.1)).eraseDups
        (fun n => if n = name then some entry else entries.reverse.lookup n) =
        named (entries.map (·.1)).eraseDups fun n => entries.reverse.lookup n := by
      refine named_congr _ fun n hn => if_neg ?_
      intro h
      subst h
      exact hnot hn
    rw [hnew, latest, putNamed_named_of_not_mem entry _ hnot, named_append, hold,
      List.eraseDups_cons, named_cons (if_pos rfl)]
    rfl

/-- Entries that are put one by one, are there in the end as the latest ones. -/
theorem foldl_putNamed (done rest : List (String × α)) :
    rest.foldl (fun entries e => putNamed e.1 e.2 entries) (latest done) =
      latest (done ++ rest) := by
  induction rest generalizing done with
  | nil => rw [List.append_nil, List.foldl_nil]
  | cons e rest ih =>
      rw [List.foldl_cons, ← latest_append, ih, List.append_assoc]
      rfl

end Named

/-- Variants that are added one by one, are there in the end with their latest shape. -/
theorem RowShape.withVariants_plain (layout : Layout) (variants : List (String × RowShape)) :
    (RowShape.plain layout).withVariants variants = ⟨layout, latest variants⟩ := by
  -- Adding variants changes nothing but the variants, and puts each one under its name.
  have hfold : ∀ shape : RowShape, shape.withVariants variants = ⟨shape.layout,
      variants.foldl (fun entries e => putNamed e.1 e.2 entries) shape.variants⟩ := by
    unfold RowShape.withVariants
    induction variants with
    | nil =>
        intro shape
        cases shape
        rfl
    | cons e rest ih =>
        intro shape
        rw [List.foldl_cons, ih]
        rfl
  rw [hfold]
  exact congrArg _ (foldl_putNamed [] variants)

/-! ## The reference -/

/-- The columns of entries, each of a known width. -/
def widthSum (widthOf : ResultColumn → Nat) : List ResultColumn → Nat
  | [] => 0
  | column :: rest => widthOf column + widthSum widthOf rest

theorem widthSum_append (widthOf : ResultColumn → Nat) (a b : List ResultColumn) :
    widthSum widthOf (a ++ b) = widthSum widthOf a + widthSum widthOf b := by
  induction a with
  | nil => exact (Nat.zero_add _).symm
  | cons column rest ih =>
      rw [List.cons_append, widthSum, widthSum, ih, Nat.add_assoc]

/-- A join: the logical name of its relation, the entries emitted before its own, its own if it is
included, and the joins below it. -/
inductive Edge where
  | mk (name : String) (before : List ResultColumn) (own : Option (List ResultColumn))
      (below : List Edge)

/-- The logical name. -/
def Edge.name : Edge → String
  | .mk name _ _ _ => name

mutual

/-- The edge of a relation whose entries are emitted after `before`. -/
def Relation.edge (before : List ResultColumn) (included : Bool) : Relation → Edge
  | ⟨name, target, _, _, selection, joins⟩ =>
    if included then
      .mk name before (some (selection target.id)) (Join.edges (before ++ selection target.id) joins)
    else .mk name before none (Join.edges before joins)

/-- The edges of joins whose entries are emitted after `before`. -/
def Join.edges (before : List ResultColumn) : List Join → List Edge
  | [] => []
  | ⟨included, _, relation⟩ :: rest =>
    relation.edge before included :: Join.edges (before ++ relation.emitted included) rest

end

theorem Relation.name_edge (before : List ResultColumn) (included : Bool) (r : Relation) :
    (r.edge before included).name = r.name := by
  obtain ⟨_, _, _, _, _, _⟩ := r
  cases included <;> rfl

/-- The edges of a query, whose own entries come first. -/
def Query.edges (q : Query) : List Edge :=
  Join.edges q.selection ((q.source.map (·.joins)).getD [])

namespace Edge

mutual

/-- The included edges depth first: what is emitted before each, and its own entries. -/
def included : Edge → List (List ResultColumn × List ResultColumn)
  | .mk _ before own below => (own.map (before, ·)).toList ++ includedAll below

/-- The included edges of a list, one edge after the other. -/
def includedAll : List Edge → List (List ResultColumn × List ResultColumn)
  | [] => []
  | e :: rest => e.included ++ includedAll rest

end

/-- The columns of an included edge: as many as its own entries have, after those before. -/
def slice (widthOf : ResultColumn → Nat) (e : List ResultColumn × List ResultColumn) : Nat × Nat :=
  (widthSum widthOf e.1, widthSum widthOf e.1 + widthSum widthOf e.2)

mutual

/-- The variant of an edge. There is one just when the edge or an edge below it is included. -/
def node (widthOf : ResultColumn → Nat) : Edge → Option RowShape
  | .mk _ before own below =>
    match own with
    | some own =>
      let slice := slice widthOf (before, own)
      some ⟨.range slice.1 slice.2, latest (nodes widthOf below)⟩
    | none =>
      if includedAll below = [] then none else some ⟨.empty, latest (nodes widthOf below)⟩

/-- The variants of edges in order, under the logical names. -/
def nodes (widthOf : ResultColumn → Nat) : List Edge → List (String × RowShape)
  | [] => []
  | e :: rest => ((e.node widthOf).map (e.name, ·)).toList ++ nodes widthOf rest

end

end Edge

/-- Slices that follow each other from one column to another. -/
inductive Consecutive : Nat → List (Nat × Nat) → Nat → Prop
  | nil {column : Nat} : Consecutive column [] column
  | cons {start stop last : Nat} {rest : List (Nat × Nat)} (h : Consecutive stop rest last) :
      Consecutive start ((start, stop) :: rest) last

/-! ## Entries that follow each other -/

/-- Blocks of entries that follow each other, each with all that is emitted before it. -/
inductive Chained : List ResultColumn → List (List ResultColumn × List ResultColumn) →
    List ResultColumn → Prop
  | nil {before : List ResultColumn} : Chained before [] before
  | cons {before own last : List ResultColumn} {rest : List (List ResultColumn × List ResultColumn)}
      (h : Chained (before ++ own) rest last) : Chained before ((before, own) :: rest) last

namespace Chained

variable {before last : List ResultColumn} {blocks : List (List ResultColumn × List ResultColumn)}

/-- Blocks behind each other are chained if each chain begins where the one before it ends. -/
theorem append {middle : List ResultColumn} {more : List (List ResultColumn × List ResultColumn)}
    (h : Chained before blocks middle) (hmore : Chained middle more last) :
    Chained before (blocks ++ more) last := by
  induction h with
  | nil => exact hmore
  | cons _ ih => exact .cons (ih hmore)

/-- The last entries are those of the blocks. -/
theorem eq_flatten (h : Chained before blocks last) :
    last = before ++ (blocks.map (·.2)).flatten := by
  induction h with
  | nil => exact (List.append_nil _).symm
  | cons _ ih => rw [ih, List.map_cons, List.flatten_cons, List.append_assoc]

/-- Each block stands where it says. -/
theorem stands (h : Chained before blocks last) :
    ∀ e ∈ blocks, ∃ after, last = e.1 ++ e.2 ++ after := by
  induction h with
  | nil =>
      intro e he
      cases he
  | cons h ih => exact List.forall_mem_cons.mpr ⟨⟨_, h.eq_flatten⟩, ih⟩

/-- The columns of blocks follow each other. -/
theorem consecutive (h : Chained before blocks last) (widthOf : ResultColumn → Nat) :
    Consecutive (widthSum widthOf before) (blocks.map (Edge.slice widthOf))
      (widthSum widthOf last) := by
  induction h with
  | nil => exact .nil
  | cons _ ih =>
      rw [widthSum_append] at ih
      exact .cons ih

end Chained

mutual

/-- What a relation and all below it emit is chained. -/
theorem Relation.chained (before : List ResultColumn) : (r : Relation) → (included : Bool) →
    Chained before (r.edge before included).included (before ++ r.emitted included)
  | ⟨name, target, _, _, selection, joins⟩, true => by
      rw [Relation.edge, if_pos rfl, Edge.included, Relation.emitted, if_pos rfl,
        ← List.append_assoc]
      exact .cons (Join.chained (before ++ selection target.id) joins)
  | ⟨name, target, _, _, selection, joins⟩, false => by
      rw [Relation.edge, if_neg Bool.false_ne_true, Edge.included, Relation.emitted,
        if_neg Bool.false_ne_true]
      exact Join.chained before joins

/-- What joins emit is chained. -/
theorem Join.chained (before : List ResultColumn) : (joins : List Join) →
    Chained before (Edge.includedAll (Join.edges before joins)) (before ++ Join.emittedAll joins)
  | [] => by
      rw [Join.edges, Edge.includedAll, Join.emittedAll, List.append_nil]
      exact .nil
  | ⟨included, _, relation⟩ :: rest => by
      rw [Join.edges, Edge.includedAll, Join.emittedAll, ← List.append_assoc]
      exact (relation.chained before included).append
        (Join.chained (before ++ relation.emitted included) rest)

end

/-! ## Which edges have variants -/

mutual

/-- An edge has a variant just when it is included or an edge below it is. -/
theorem Edge.node_eq_none_iff (widthOf : ResultColumn → Nat) : (e : Edge) →
    (e.node widthOf = none ↔ e.included = [])
  | .mk name before own below => by
      cases own with
      | some own => simp [Edge.node, Edge.included]
      | none =>
          by_cases h : Edge.includedAll below = []
          · simp [Edge.node, Edge.included, h]
          · simp [Edge.node, Edge.included, h]

/-- Edges have nodes just when any of them, or of those below, is included. -/
theorem Edge.nodes_eq_nil_iff (widthOf : ResultColumn → Nat) : (edges : List Edge) →
    (Edge.nodes widthOf edges = [] ↔ Edge.includedAll edges = [])
  | [] => by simp [Edge.nodes, Edge.includedAll]
  | e :: rest => by
      rw [Edge.nodes, Edge.includedAll, List.append_eq_nil_iff, List.append_eq_nil_iff,
        Edge.nodes_eq_nil_iff widthOf rest, ← Edge.node_eq_none_iff widthOf e]
      cases e.node widthOf <;> simp

end

/-! ## The table of offsets -/

section Offsets

variable {members : List (SourceId × Width)}

/-- The columns of an entry, if there is a known number of them. -/
def ResultColumn.columnsAmong (members : List (SourceId × Width)) (column : ResultColumn) : Nat :=
  (column.widthAmong members).toOption.getD 0

/-- Every entry has a width, and the table lists the columns before every entry and after the last
one. -/
theorem getElem?_offsetsFrom : (entries : List ResultColumn) → ∀ start offsets,
    offsetsFrom members start entries = .ok offsets →
      (∀ column ∈ entries, column.widthAmong members = .ok (column.columnsAmong members)) ∧
      ∀ a b, a ++ b = entries → (start :: offsets)[a.length]? =
        some (start + widthSum (ResultColumn.columnsAmong members) a)
  | [], start, offsets, h => by
      refine ⟨fun column hcolumn => absurd hcolumn List.not_mem_nil, ?_⟩
      intro a b hab
      rw [(List.append_eq_nil_iff.mp hab).1]
      rfl
  | column :: rest, start, offsets, h => by
      rw [offsetsFrom] at h
      obtain ⟨width, hwidth, h⟩ := bind_eq_ok.mp h
      obtain ⟨others, hothers, h⟩ := bind_eq_ok.mp h
      rw [← pure_eq_ok.mp h]
      obtain ⟨hwidths, htable⟩ := getElem?_offsetsFrom rest _ others hothers
      have hcolumns : column.columnsAmong members = width := by
        rw [ResultColumn.columnsAmong, hwidth]
        rfl
      refine ⟨List.forall_mem_cons.mpr ⟨hcolumns ▸ hwidth, hwidths⟩, ?_⟩
      intro a b hab
      -- Before the first entry stands the start; any other prefix takes the first entry along.
      cases a with
      | nil => rfl
      | cons first a =>
          obtain ⟨rfl, hrest⟩ := List.cons.inj hab
          rw [List.length_cons, List.getElem?_cons_succ, htable a b hrest, widthSum, hcolumns,
            Nat.add_assoc]

/-- The columns of a select list whose entries have widths. -/
theorem ResultColumn.totalWidth_eq {widthOf : ResultColumn → Nat} :
    (entries : List ResultColumn) →
    (∀ column ∈ entries, column.widthAmong members = .ok (widthOf column)) → ∀ total,
      ResultColumn.totalWidth members entries total = .ok (total + widthSum widthOf entries)
  | [], _, total => rfl
  | column :: rest, h, total => by
      rw [List.forall_mem_cons] at h
      rw [ResultColumn.totalWidth, h.1]
      show ResultColumn.totalWidth members rest (total + widthOf column) = _
      rw [ResultColumn.totalWidth_eq rest h.2, widthSum, Nat.add_assoc]

/-! ## The cursor -/

variable {widthOf : ResultColumn → Nat} {emitted : List ResultColumn} {offsets : List Nat}

/-- A slice that is read off the table has the columns of its entries. -/
theorem sliceAt_eq (htable : ∀ a b, a ++ b = emitted → offsets[a.length]? =
      some (widthSum widthOf a)) {before own after : List ResultColumn}
    (h : before ++ own ++ after = emitted) :
    sliceAt offsets before.length own.length = .range (Edge.slice widthOf (before, own)).1
      (Edge.slice widthOf (before, own)).2 := by
  have hstart := htable before (own ++ after) (List.append_assoc .. ▸ h)
  have hstop := htable (before ++ own) after h
  rw [List.length_append, widthSum_append] at hstop
  rw [sliceAt, hstart, hstop]
  rfl

mutual

/-- **The cursor of a relation is in the right place**: at the entries before it on the way in and
past all that it emits on the way out, so that its variant is the reference's. -/
theorem Relation.shape_eq (htable : ∀ a b, a ++ b = emitted → offsets[a.length]? =
      some (widthSum widthOf a)) : (r : Relation) → ∀ (included : Bool) (before after),
    before ++ r.emitted included ++ after = emitted →
      r.shape offsets included before.length =
        ((r.edge before included).node widthOf, (before ++ r.emitted included).length)
  | ⟨name, target, _, _, selection, joins⟩, true, before, after, h => by
      rw [Relation.emitted, if_pos rfl, ← List.append_assoc] at h ⊢
      have hbelow := Join.shapes_eq htable joins (before ++ selection target.id) after h
      have hslice : sliceAt offsets before.length (selection target.id).length = _ :=
        sliceAt_eq htable ((List.append_assoc ..).symm.trans h)
      rw [List.length_append] at hbelow
      rw [Relation.shape, Relation.edge, if_pos rfl, if_pos rfl, if_pos rfl, hbelow, hslice,
        Edge.node, RowShape.withVariants_plain]
      rfl
  | ⟨name, target, _, _, selection, joins⟩, false, before, after, h => by
      rw [Relation.emitted, if_neg Bool.false_ne_true, List.nil_append] at h ⊢
      have hbelow := Join.shapes_eq htable joins before after h
      rw [Relation.shape, Relation.edge, if_neg Bool.false_ne_true, if_neg Bool.false_ne_true,
        if_neg Bool.false_ne_true, Nat.add_zero, hbelow, Edge.node, RowShape.withVariants_plain]
      -- There is a variant to carry others just when something below is included.
      by_cases hnone : Edge.includedAll (Join.edges before joins) = []
      · rw [if_pos hnone, (Edge.nodes_eq_nil_iff widthOf _).mpr hnone]
        rfl
      · have hsome : Edge.nodes widthOf (Join.edges before joins) ≠ [] :=
          mt (Edge.nodes_eq_nil_iff widthOf _).mp hnone
        rw [if_neg hnone, if_pos (by simpa using hsome)]

/-- The cursor of joins is in the right place. -/
theorem Join.shapes_eq (htable : ∀ a b, a ++ b = emitted → offsets[a.length]? =
      some (widthSum widthOf a)) : (joins : List Join) → ∀ before after,
    before ++ Join.emittedAll joins ++ after = emitted →
      Join.shapes offsets before.length joins =
        (Edge.nodes widthOf (Join.edges before joins), (before ++ Join.emittedAll joins).length)
  | [], before, after, h => by
      rw [Join.shapes, Join.edges, Edge.nodes, Join.emittedAll, List.append_nil]
  | ⟨included, _, relation⟩ :: rest, before, after, h => by
      rw [Join.emittedAll, ← List.append_assoc] at h ⊢
      -- The cursor that the first relation leaves is the one that the rest begins with.
      have hown := relation.shape_eq htable included before (Join.emittedAll rest ++ after)
        ((List.append_assoc ..).symm.trans h)
      have hrest := Join.shapes_eq htable rest (before ++ relation.emitted included) after h
      rw [Join.shapes, hown, hrest, Join.edges, Edge.nodes, Relation.name_edge]

end

end Offsets

/-! ## Queries -/

theorem Query.emitted_eq (q : Query) :
    q.emitted = q.selection ++ Join.emittedAll ((q.source.map (·.joins)).getD []) := by
  rw [Query.emitted, Query.relationColumns]
  cases q.source <;> rfl

/-- What the included edges emit follows the query's own selection. -/
theorem Query.chained (q : Query) :
    Chained q.selection (Edge.includedAll q.edges) q.emitted := by
  rw [Query.emitted_eq]
  exact Join.chained q.selection _

/-- The columns of an entry of a query's select list. -/
def Query.columnsOf (schema : Schema) (q : Query) : ResultColumn → Nat :=
  ResultColumn.columnsAmong (q.members schema)

/-- A query with a row shape has a width for every entry, and the reference's shape. -/
theorem Query.of_rowShape {schema : Schema} {q : Query} {shape : RowShape}
    (h : q.rowShape schema = .ok shape) :
    (∀ column ∈ q.emitted, column.width schema q = .ok (q.columnsOf schema column)) ∧
      q.width schema = .ok (widthSum (q.columnsOf schema) q.emitted) ∧
      shape = ⟨.all, latest (Edge.nodes (q.columnsOf schema) q.edges)⟩ := by
  obtain ⟨offsets, hoffsets, hshape⟩ := bind_eq_ok.mp h
  obtain ⟨hwidths, hoffsets⟩ := getElem?_offsetsFrom q.emitted 0 offsets hoffsets
  -- The table begins with the offset before the first entry, where no column is yet.
  have htable : ∀ a b, a ++ b = q.emitted → (0 :: offsets)[a.length]? =
      some (widthSum (q.columnsOf schema) a) := fun a b hab =>
    (hoffsets a b hab).trans (congrArg some (Nat.zero_add _))
  refine ⟨hwidths, ?_, ?_⟩
  · rw [Query.width_eq, ResultColumn.totalWidth_eq q.emitted hwidths 0, Nat.zero_add]
    rfl
  · have hjoins := Join.shapes_eq htable _ q.selection []
      ((List.append_nil _).trans q.emitted_eq.symm)
    rw [← pure_eq_ok.mp hshape, hjoins, RowShape.withVariants_plain]
    rfl

/-- **A row is cut up as it is emitted.** When a query has a row shape, every entry of its select
list has a width, and the shape is the reference's: the root exposes every column, and the variants
are those of the edges. The own entries of the included edges, depth first, are what is emitted
after the query's own selection, each just where its edge says; so their slices follow each
other, from the columns of the query's own selection to the last column of the statement. -/
theorem Query.rowShape_eq_reference {schema : Schema} {q : Query} {shape : RowShape}
    (h : q.rowShape schema = .ok shape) : ∃ (widthOf : ResultColumn → Nat) (total : Nat),
      (∀ column ∈ q.emitted, column.width schema q = .ok (widthOf column)) ∧
      q.width schema = .ok total ∧
      shape = ⟨.all, latest (Edge.nodes widthOf q.edges)⟩ ∧
      q.emitted = q.selection ++ ((Edge.includedAll q.edges).map (·.2)).flatten ∧
      (∀ e ∈ Edge.includedAll q.edges, ∃ after, q.emitted = e.1 ++ e.2 ++ after) ∧
      Consecutive (widthSum widthOf q.selection)
        ((Edge.includedAll q.edges).map (Edge.slice widthOf)) total := by
  obtain ⟨hwidths, hwidth, hshape⟩ := Query.of_rowShape h
  exact ⟨_, _, hwidths, hwidth, hshape, q.chained.eq_flatten, q.chained.stands,
    q.chained.consecutive _⟩

/-- The stars of people who are led are those of the person and of either leader. -/
theorem ledPeople_widths {widthOf : ResultColumn → Nat}
    (h : ∀ column ∈ ledPeople.emitted, column.width people ledPeople = .ok (widthOf column)) :
    widthOf (.star ⟨0⟩) = 3 ∧ widthOf (.star ⟨2⟩) = 3 ∧ widthOf (.star ⟨3⟩) = 3 := by
  have hemitted : ledPeople.emitted = [.star ⟨0⟩, .star ⟨2⟩, .star ⟨3⟩] := rfl
  rw [hemitted, List.forall_mem_cons, List.forall_mem_cons, List.forall_mem_singleton] at h
  obtain ⟨hperson, hleader, hother⟩ := h
  exact ⟨(Except.ok.inj hperson).symm, (Except.ok.inj hleader).symm, (Except.ok.inj hother).symm⟩

/-- People who are led have three columns of their own and three of each leader. Of the two leaders
under one name the later one is exposed. -/
theorem ledPeople_slices : ∃ shape widthOf, ledPeople.rowShape people = .ok shape ∧
    shape = ⟨.all, latest (Edge.nodes widthOf ledPeople.edges)⟩ ∧
    (Edge.includedAll ledPeople.edges).map (Edge.slice widthOf) = [(3, 6), (6, 9)] ∧
    ledPeople.width people = .ok 9 := by
  obtain ⟨shape, hshape⟩ : ∃ shape, ledPeople.rowShape people = .ok shape :=
    exists_ok (by decide +kernel)
  obtain ⟨widthOf, total, hwidths, htotal, heq, _, _, _⟩ := Query.rowShape_eq_reference hshape
  have hthree := ledPeople_widths hwidths
  have hedges : Edge.includedAll ledPeople.edges =
    [([.star ⟨0⟩], [.star ⟨2⟩]), ([.star ⟨0⟩, .star ⟨2⟩], [.star ⟨3⟩])] := rfl
  refine ⟨shape, widthOf, hshape, heq, ?_, rfl⟩
  simp [hedges, Edge.slice, widthSum, hthree]

end RelationalQuery
