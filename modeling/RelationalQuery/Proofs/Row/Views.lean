/-
  RelationalQuery.Proofs.Row.Views — a row is read through its slices.

  The widths of a select list are counted once for the width of the query, once for the offsets of
  its entries, and a third time when the offsets are read off for the slices of relations. The three
  agree, so a statement with as many columns as its query has always a projection, and what a view
  of a row shows is a piece of the row.

  Main definitions:
    * `RowShape.InBounds`: no layout of a shape asks for columns that are not there.
    * `Edge.cut`: the piece of a row that belongs to an edge.
    * `RowView.at?`, `RowView.Shows`: the view at a path, and what reading it gives.

  Main statements:
    * `Query.rowShape_isOk`: a query with a width has a row shape.
    * `Query.inBounds_of_rowShape`: whose layouts are all in bounds.
    * `Query.projection_spec`: when a query has a projection, and what its rows show.
-/

import RelationalQuery.Proofs.Row.Variants
import RelationalQuery.Row.View

namespace RelationalQuery

/-! ## Layouts in bounds -/

/-- The layout fits a statement with `total` columns. Columns that are picked by name are not
counted on. -/
def Layout.InBounds (total : Nat) : Layout → Prop
  | .all | .empty => True
  | .suffix start => start ≤ total
  | .range start stop => start ≤ stop ∧ stop ≤ total
  | .mapping _ => False

mutual

/-- All layouts of the shape, at any depth, fit a statement with `total` columns. -/
def RowShape.InBounds (total : Nat) : RowShape → Prop
  | ⟨layout, variants⟩ => layout.InBounds total ∧ RowShape.AllInBounds total variants

/-- The same for the shapes of variants. -/
def RowShape.AllInBounds (total : Nat) : List (String × RowShape) → Prop
  | [] => True
  | (_, shape) :: rest => shape.InBounds total ∧ RowShape.AllInBounds total rest

end

theorem RowShape.allInBounds_iff {total : Nat} : {variants : List (String × RowShape)} →
    (AllInBounds total variants ↔ ∀ v ∈ variants, v.2.InBounds total)
  | [] => by simp [AllInBounds]
  | (_, shape) :: rest => by
      rw [AllInBounds, List.forall_mem_cons, allInBounds_iff]

/-- A layout in bounds can be bound. -/
theorem Layout.bind_of_inBounds {layout : Layout} {names : List String}
    (h : layout.InBounds names.length) : ∃ columns, layout.bind names = .ok columns := by
  cases layout with
  | all => exact ⟨_, rfl⟩
  | suffix start => exact ⟨_, if_neg (Nat.not_lt.mpr h)⟩
  | range start stop =>
      refine ⟨_, if_neg ?_⟩
      rw [not_or]
      exact ⟨Nat.not_lt.mpr h.1, Nat.not_lt.mpr h.2⟩
  | mapping pairs => cases h
  | empty => exact ⟨_, rfl⟩

mutual

/-- **A shape in bounds can be bound.** -/
theorem RowShape.bind_of_inBounds {names : List String} : (shape : RowShape) →
    shape.InBounds names.length → ∃ binding, shape.bind names = .ok binding
  | ⟨layout, variants⟩, ⟨hlayout, hvariants⟩ => by
      obtain ⟨columns, hcolumns⟩ := Layout.bind_of_inBounds hlayout
      obtain ⟨bindings, hbindings⟩ := RowShape.bindVariants_of_inBounds variants hvariants
      exact ⟨_, bind_eq_ok.mpr ⟨columns, hcolumns, bind_eq_ok.mpr ⟨bindings, hbindings, rfl⟩⟩⟩

theorem RowShape.bindVariants_of_inBounds {names : List String} :
    (variants : List (String × RowShape)) → RowShape.AllInBounds names.length variants →
    ∃ bindings, RowShape.bindVariants names variants = .ok bindings
  | [], _ => ⟨[], rfl⟩
  | (name, shape) :: rest, ⟨hshape, hrest⟩ => by
      obtain ⟨binding, hbinding⟩ := shape.bind_of_inBounds hshape
      obtain ⟨bindings, hbindings⟩ := RowShape.bindVariants_of_inBounds rest hrest
      exact ⟨_, bind_eq_ok.mpr ⟨binding, hbinding, bind_eq_ok.mpr ⟨bindings, hbindings, rfl⟩⟩⟩

end

/-! ## The slices of edges are in bounds -/

theorem mem_of_mem_latest {α : Type} {entries : List (String × α)} {e : String × α}
    (h : e ∈ latest entries) : e ∈ entries := by
  obtain ⟨name, _, hentry⟩ := List.mem_filterMap.mp h
  obtain ⟨entry, hlookup, rfl⟩ := Option.map_eq_some_iff.mp hentry
  obtain ⟨before, after, heq, _⟩ := List.lookup_eq_some_iff.mp hlookup
  rw [← List.mem_reverse, heq]
  exact List.mem_append_right _ (List.mem_cons_self ..)

section Edges

variable {widthOf : ResultColumn → Nat} {entries : List ResultColumn}

/-- The slice of entries that stand in a list is in bounds of the list's columns. -/
theorem Edge.slice_inBounds {before own after : List ResultColumn}
    (h : entries = before ++ own ++ after) :
    (Layout.range (Edge.slice widthOf (before, own)).1 (Edge.slice widthOf (before, own)).2).InBounds
      (widthSum widthOf entries) := by
  rw [h, widthSum_append, widthSum_append]
  exact ⟨Nat.le_add_right .., Nat.le_add_right ..⟩

mutual

/-- The variant of an edge is in bounds if its entries, and those below it, are emitted. -/
theorem Edge.node_inBounds : (e : Edge) →
    (∀ block ∈ e.included, ∃ after, entries = block.1 ++ block.2 ++ after) →
    ∀ shape, e.node widthOf = some shape → shape.InBounds (widthSum widthOf entries)
  | .mk name before own below, hstands, shape, hnode => by
      have hbelow : RowShape.AllInBounds (widthSum widthOf entries)
          (latest (Edge.nodes widthOf below)) :=
        RowShape.allInBounds_iff.mpr fun v hv =>
          Edge.nodes_inBounds below
            (fun block hblock => hstands block (List.mem_append_right _ hblock)) v
            (mem_of_mem_latest hv)
      cases own with
      | some own =>
          obtain ⟨after, hafter⟩ := hstands (before, own)
            (List.mem_append_left _ (List.mem_cons_self ..))
          cases hnode
          exact ⟨Edge.slice_inBounds hafter, hbelow⟩
      | none =>
          -- What is not included has a variant for what is below it only, and no columns.
          rw [Edge.node] at hnode
          split at hnode
          · cases hnode
          · cases hnode
            exact ⟨trivial, hbelow⟩

/-- The nodes of edges whose entries stand in the list are in bounds of its columns. -/
theorem Edge.nodes_inBounds : (edges : List Edge) →
    (∀ block ∈ Edge.includedAll edges, ∃ after, entries = block.1 ++ block.2 ++ after) →
    ∀ v ∈ Edge.nodes widthOf edges, v.2.InBounds (widthSum widthOf entries)
  | [], _, v, hv => by cases hv
  | e :: rest, hstands, v, hv => by
      obtain hv | hv := List.mem_append.mp hv
      · obtain ⟨shape, hshape, rfl⟩ := Option.map_eq_some_iff.mp (Option.mem_toList.mp hv)
        exact Edge.node_inBounds e
          (fun block hblock => hstands block (List.mem_append_left _ hblock)) shape hshape
      · exact Edge.nodes_inBounds rest
          (fun block hblock => hstands block (List.mem_append_right _ hblock)) v hv

end

end Edges

/-- **No layout of a query's rows is out of bounds**: each asks for columns that a statement of the
query's width has. -/
theorem Query.inBounds_of_rowShape {schema : Schema} {q : Query} {shape : RowShape}
    (h : q.rowShape schema = .ok shape) :
    shape.InBounds (widthSum (q.columnsOf schema) q.emitted) := by
  obtain ⟨_, _, rfl⟩ := Query.of_rowShape h
  refine ⟨trivial, RowShape.allInBounds_iff.mpr fun v hv => ?_⟩
  exact Edge.nodes_inBounds q.edges q.chained.stands v (mem_of_mem_latest hv)

/-! ## Widths -/

section Widths

variable {members : List (SourceId × Width)}

/-- A select list with a width has a table of offsets. -/
theorem offsetsFrom_of_totalWidth : (entries : List ResultColumn) → ∀ start width,
    ResultColumn.totalWidth members entries start = .ok width →
      ∃ offsets, offsetsFrom members start entries = .ok offsets
  | [], start, width, _ => ⟨[], rfl⟩
  | column :: rest, start, width, h => by
      obtain ⟨own, hown, h⟩ := bind_eq_ok.mp h
      obtain ⟨offsets, hoffsets⟩ := offsetsFrom_of_totalWidth rest _ width h
      exact ⟨_, bind_eq_ok.mpr ⟨own, hown, bind_eq_ok.mpr ⟨offsets, hoffsets, rfl⟩⟩⟩

end Widths

/-- A query with a width has a row shape. -/
theorem Query.rowShape_isOk {schema : Schema} {q : Query} {width : Nat}
    (h : q.width schema = .ok width) : ∃ shape, q.rowShape schema = .ok shape := by
  rw [Query.width_eq] at h
  obtain ⟨offsets, hoffsets⟩ := offsetsFrom_of_totalWidth q.emitted 0 width h
  exact ⟨_, bind_eq_ok.mpr ⟨offsets, hoffsets, rfl⟩⟩

/-! ## Views -/

namespace RowView

/-- The view that a path of names leads to. -/
def at? (v : RowView) : List String → Option RowView
  | [] => some v
  | name :: rest => (v.variant? name).bind (·.at? rest)

/-- The view shows just the given cells, each a name and a value: it lists their names and values in
order, has a value at every position, and finds by name the leftmost value of that name, ASCII case
aside. -/
structure Shows (v : RowView) (cells : List (String × Value)) : Prop where
  names_eq : v.binding.names = cells.map (·.1)
  exposed_eq : v.exposed = cells.map (·.2)
  get?_eq : ∀ i < v.binding.size, ∃ cell, cells[i]? = some cell ∧ v.get? i = some cell.2
  value?_eq : ∀ name, v.value? name =
    (cells.find? fun cell => decide (Identifier.Same cell.1 name)).map (·.2)

/-- A view shows the cells that its columns stand for. -/
theorem shows_of_columns {v : RowView} {cells : List (String × Value)}
    (h : (v.binding.columns.map fun c => (c.2, v.values[c.1]?)) =
      cells.map fun cell => (cell.1, some cell.2)) : v.Shows cells where
  names_eq := by
    have hnames := congrArg (List.map (·.1)) h
    simpa only [RowBinding.names, List.map_map, Function.comp_def] using hnames
  exposed_eq := by
    have hvalues := congrArg (List.filterMap (·.2)) h
    simpa only [exposed, List.filterMap_map, Function.comp_def, List.filterMap_eq_map'] using hvalues
  get?_eq := by
    intro i hi
    have hcell := congrArg (·[i]?) h
    simp only [List.getElem?_map] at hcell
    obtain ⟨c, hc⟩ : ∃ c, v.binding.columns[i]? = some c := ⟨_, List.getElem?_eq_getElem hi⟩
    rw [hc, Option.map_some] at hcell
    obtain ⟨cell, hcells, heq⟩ := Option.map_eq_some_iff.mp hcell.symm
    refine ⟨cell, hcells, ?_⟩
    have hvalue := congrArg Prod.snd heq
    simp only [get?, RowBinding.statementIndex?, hc]
    exact hvalue.symm
  value?_eq := by
    intro name
    -- The search looks at names only, so it stops at the same position on both sides.
    have hfind := congrArg (List.find? fun cell => decide (Identifier.Same cell.1 name)) h
    rw [List.find?_map, List.find?_map] at hfind
    have hvalue := congrArg (Option.bind · (·.2)) hfind
    simp only [Option.bind_map, Function.comp_def] at hvalue
    simp only [value?, RowBinding.indexOf?, Option.bind_eq_bind, Option.bind_map, Function.comp_def]
    rw [hvalue]
    exact Option.map_eq_bind.symm

end RowView

/-- The columns of a statement stand for the cells of its rows. -/
theorem numbered_cells {names : List String} {values : List Value}
    (h : values.length = names.length) :
    ((numbered names).map fun c => (c.2, values[c.1]?)) =
      (names.zip values).map fun cell => (cell.1, some cell.2) := by
  refine List.ext_getElem (by simp [numbered, h]) fun i hi hi' => ?_
  have hvalue : i < values.length := by
    simp only [List.length_map, List.length_zip] at hi'
    omega
  simp [numbered, hvalue]

/-! ## Variants of bound shapes -/

theorem RowShape.bind_eq_ok_iff {names : List String} {shape : RowShape} {binding : RowBinding} :
    shape.bind names = .ok binding ↔ shape.layout.bind names = .ok binding.columns ∧
      RowShape.bindVariants names shape.variants = .ok binding.variants := by
  obtain ⟨layout, variants⟩ := shape
  obtain ⟨columns, bindings⟩ := binding
  rw [RowShape.bind, bind_eq_ok]
  constructor
  · rintro ⟨columns, hcolumns, h⟩
    obtain ⟨bindings, hbindings, h⟩ := bind_eq_ok.mp h
    cases pure_eq_ok.mp h
    exact ⟨hcolumns, hbindings⟩
  · rintro ⟨hcolumns, hbindings⟩
    exact ⟨_, hcolumns, bind_eq_ok.mpr ⟨_, hbindings, rfl⟩⟩

/-- A bound variant comes from the variant of that name. -/
theorem RowShape.lookup_bindVariants {names : List String} {name : String} {binding : RowBinding} :
    (variants : List (String × RowShape)) → ∀ bindings,
    RowShape.bindVariants names variants = .ok bindings → bindings.lookup name = some binding →
      ∃ shape, variants.lookup name = some shape ∧ shape.bind names = .ok binding
  | [], bindings, h, hlookup => by
      cases h
      cases hlookup
  | (own, shape) :: rest, bindings, h, hlookup => by
      obtain ⟨first, hfirst, h⟩ := bind_eq_ok.mp h
      obtain ⟨others, hothers, h⟩ := bind_eq_ok.mp h
      cases pure_eq_ok.mp h
      -- Names are kept by binding, so both look-ups stop at the same entry.
      rw [List.lookup_cons] at hlookup ⊢
      split
      · rename_i heq
        rw [heq] at hlookup
        cases hlookup
        exact ⟨shape, rfl, hfirst⟩
      · rename_i hne
        rw [hne] at hlookup
        exact lookup_bindVariants rest others hothers hlookup

/-- The view at a path is the row seen through the variant of the shape there. -/
theorem RowView.at?_of_bind {names : List String} : (path : List String) → ∀ (shape : RowShape)
    (v w : RowView), shape.bind names = .ok v.binding → v.at? path = some w →
      ∃ variant, shape.at? path = some variant ∧ variant.bind names = .ok w.binding ∧
        w.values = v.values
  | [], shape, v, w, hbind, hat => by
      cases hat
      exact ⟨shape, rfl, hbind, rfl⟩
  | name :: rest, shape, v, w, hbind, hat => by
      obtain ⟨next, hnext, hat⟩ := Option.bind_eq_some_iff.mp hat
      obtain ⟨binding, hlookup, rfl⟩ := Option.map_eq_some_iff.mp hnext
      obtain ⟨variant, hvariant, hown⟩ :=
        RowShape.lookup_bindVariants _ _ (RowShape.bind_eq_ok_iff.mp hbind).2 hlookup
      -- The rest of the path is followed in the variant, over the same values.
      obtain ⟨target, htarget, hw, hvalues⟩ := RowView.at?_of_bind rest variant _ w hown hat
      refine ⟨target, ?_, hw, hvalues⟩
      rw [RowShape.at?, hvariant]
      exact htarget

/-! ## Slices of rows -/

namespace Edge

/-- The piece of a row that belongs to an edge: as many columns as its own entries have, after those
of all entries before; none for an edge that is not included. -/
def cut {α : Type} (widthOf : ResultColumn → Nat) (row : List α) : Edge → List α
  | .mk _ before (some own) _ => (row.drop (widthSum widthOf before)).take (widthSum widthOf own)
  | .mk _ _ none _ => []

/-- The entries of the edge, if it is included, stand in the list where the edge says. -/
def StandsIn (entries : List ResultColumn) : Edge → Prop
  | .mk _ before (some own) _ => ∃ after, entries = before ++ own ++ after
  | .mk _ _ none _ => True

variable {widthOf : ResultColumn → Nat} {entries : List ResultColumn}

theorem map_cut {α β : Type} (f : α → β) (row : List α) (e : Edge) :
    (e.cut widthOf row).map f = e.cut widthOf (row.map f) := by
  obtain ⟨name, before, _ | own, below⟩ := e
  · rfl
  · rw [cut, cut, List.map_take, List.map_drop]

/-- The variant of an edge picks the edge's piece of the statement's columns. -/
theorem bind_node {e : Edge} {shape : RowShape} {names : List String}
    (hnode : e.node widthOf = some shape) (hstands : e.StandsIn entries)
    (hlength : names.length = widthSum widthOf entries) :
    shape.layout.bind names = .ok (e.cut widthOf (numbered names)) := by
  obtain ⟨name, before, _ | own, below⟩ := e
  · -- An edge that is not included shows nothing of its own.
    rw [node] at hnode
    split at hnode
    · cases hnode
    · cases hnode
      rfl
  · obtain ⟨after, rfl⟩ := hstands
    cases hnode
    exact Layout.bind_slice hlength

end Edge

/-- A shown edge's entries stand in the select list where the edge says. -/
theorem Query.standsIn {q : Query} {path : List String} {e : Edge}
    (h : Edge.At Edge.Shown q.edges path e) : e.StandsIn q.emitted := by
  obtain ⟨name, before, _ | own, below⟩ := e
  · trivial
  · exact q.chained.stands (before, own)
      (h.mem_includedAll _ (List.mem_append_left _ (List.mem_cons_self ..)))

/-! ## Projections -/

/-- A query has a projection onto as many columns as it is wide, if its shape can be bound to them.
-/
theorem Query.projection_eq_ok {schema : Schema} {q : Query} {columns : List String}
    {p : Projection} : q.projection schema columns = .ok p ↔
      q.width schema = .ok columns.length ∧ p.columns = columns ∧
        ∃ shape, q.rowShape schema = .ok shape ∧ shape.bind columns = .ok p.binding := by
  rw [Query.projection, bind_eq_ok]
  constructor
  · rintro ⟨width, hwidth, h⟩
    split at h
    · -- A statement with another number of columns is refused.
      cases h
    · rename_i hequal
      obtain ⟨shape, hshape, h⟩ := bind_eq_ok.mp h
      obtain ⟨binding, hbinding, h⟩ := bind_eq_ok.mp h
      cases pure_eq_ok.mp h
      exact ⟨Decidable.not_not.mp hequal ▸ hwidth, rfl, shape, hshape, hbinding⟩
  · rintro ⟨hwidth, hcolumns, shape, hshape, hbinding⟩
    refine ⟨_, hwidth, ?_⟩
    rw [if_neg fun hne => hne rfl]
    refine bind_eq_ok.mpr ⟨shape, hshape, bind_eq_ok.mpr ⟨_, hbinding, ?_⟩⟩
    exact pure_eq_ok.mpr (hcolumns ▸ rfl)

/-- **Projection is total, and views are slices.** A query has a projection onto the columns of a
statement exactly when it has a width and that is their number; otherwise projecting fails as the
width does, or with both numbers. No layout of its rows is out of bounds. Of a row with a value for
each column, the root shows every cell, and every view below it shows the cells of the edge that
its path leads to: the columns of the edge's own entries, where these stand in the select list. -/
theorem Query.projection_spec (schema : Schema) (q : Query) (columns : List String) :
    (∀ e, q.width schema = .error e → q.projection schema columns = .error e) ∧
    (∀ width, q.width schema = .ok width → width ≠ columns.length →
      q.projection schema columns = .error (.columnCountMismatch width columns.length)) ∧
    ((∃ p, q.projection schema columns = .ok p) ↔ q.width schema = .ok columns.length) ∧
    (∀ shape, q.rowShape schema = .ok shape →
      ∃ total, q.width schema = .ok total ∧ shape.InBounds total) ∧
    ∀ p, q.projection schema columns = .ok p →
      ∀ values : List Value, values.length = columns.length →
        (∀ column ∈ q.emitted, column.width schema q = .ok (q.columnsOf schema column)) ∧
        (⟨values, p.binding⟩ : RowView).Shows (columns.zip values) ∧
        ∀ path, path ≠ [] → ∀ view, (⟨values, p.binding⟩ : RowView).at? path = some view →
          ∃ e, Edge.At Edge.Shown q.edges path e ∧ e.StandsIn q.emitted ∧
            view.Shows (e.cut (q.columnsOf schema) (columns.zip values)) := by
  refine ⟨fun e he => ?_, fun width hwidth hne => ?_, ⟨?_, ?_⟩, fun shape hshape => ?_, ?_⟩
  · rw [Query.projection, he]
    rfl
  · rw [Query.projection, hwidth]
    exact if_pos hne
  · rintro ⟨p, hp⟩
    exact (Query.projection_eq_ok.mp hp).1
  · intro hwidth
    -- A shape that is in bounds of the width is bound to as many columns.
    obtain ⟨shape, hshape⟩ := Query.rowShape_isOk hwidth
    have hbounds := Query.inBounds_of_rowShape hshape
    have htotal := (Query.of_rowShape hshape).2.1
    rw [Except.ok.inj (htotal.symm.trans hwidth)] at hbounds
    obtain ⟨binding, hbinding⟩ := shape.bind_of_inBounds hbounds
    exact ⟨⟨columns, binding⟩, Query.projection_eq_ok.mpr ⟨hwidth, rfl, shape, hshape, hbinding⟩⟩
  · exact ⟨_, (Query.of_rowShape hshape).2.1, Query.inBounds_of_rowShape hshape⟩
  · intro p hp values hvalues
    obtain ⟨hwidth, _, shape, hshape, hbinding⟩ := Query.projection_eq_ok.mp hp
    obtain ⟨hwidths, htotal, hreference⟩ := Query.of_rowShape hshape
    have hlength : columns.length = widthSum (q.columnsOf schema) q.emitted :=
      Except.ok.inj (hwidth.symm.trans htotal)
    have hcells := numbered_cells hvalues
    refine ⟨hwidths, RowView.shows_of_columns ?_, fun path hpath view hview => ?_⟩
    · have hroot := (RowShape.bind_eq_ok_iff.mp hbinding).1
      rw [hreference] at hroot
      rw [← Except.ok.inj hroot]
      exact hcells
    · -- The path leads to an edge, whose variant is bound to the edge's piece of the columns.
      obtain ⟨variant, hvariant, hbound, hsame⟩ :=
        RowView.at?_of_bind path shape _ view hbinding hview
      rw [hreference, Edge.at?_eq_some_iff _ _ path hpath] at hvariant
      obtain ⟨e, hat, hnode⟩ := hvariant
      have hstands := q.standsIn hat
      have hcolumns := (RowShape.bind_eq_ok_iff.mp hbound).1
      rw [Edge.bind_node hnode hstands hlength] at hcolumns
      refine ⟨e, hat, hstands, RowView.shows_of_columns ?_⟩
      rw [← Except.ok.inj hcolumns, hsame, Edge.map_cut, Edge.map_cut, hcells]

end RelationalQuery
